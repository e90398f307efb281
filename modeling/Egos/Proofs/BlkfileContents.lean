import Egos.Proofs.BlkfileBlocks

/-! Reads and writes of the block file server, on files that are byte strings. -/

namespace Egos.Files
open Disk (BLOCK_SIZE)

theorem writeAt_length (bytes : List UInt8) (offset : Nat) (data : List UInt8) :
    (writeAt bytes offset data).length = max bytes.length (offset + data.length) := by
  unfold writeAt
  dsimp only
  rw [List.length_append, List.length_append, List.length_take, List.length_drop, List.length_append,
    List.length_replicate]
  omega

/-- The bytes of the data are where they belong, and no others are different. -/
theorem writeAt_getD (bytes : List UInt8) (offset : Nat) (data : List UInt8) (i : Nat) :
    (writeAt bytes offset data).getD i 0 = if offset ≤ i ∧
        i < offset + data.length then data.getD (i - offset) 0 else bytes.getD i 0 := by
  have padded : ∀ k, (bytes ++ List.replicate (offset - bytes.length) 0).getD k 0 = bytes.getD k 0 := by
    intro k
    rw [List.getD_eq_getElem?_getD, List.getD_eq_getElem?_getD, List.getElem?_append]
    by_cases old : k < bytes.length
    · rw [if_pos old]
    · rw [if_neg old, List.getElem?_replicate, List.getElem?_eq_none (Nat.not_lt.mp old)]
      split_ifs <;> rfl
  have long : offset ≤ (bytes ++ List.replicate (offset - bytes.length) 0).length := by
    rw [List.length_append, List.length_replicate]
    omega
  rw [← padded i]
  unfold writeAt
  dsimp only
  generalize bytes ++ List.replicate (offset - bytes.length) 0 = all at long
  have front : (all.take offset).length = offset := List.length_take_of_le long
  simp only [List.getD_eq_getElem?_getD, List.append_assoc]
  by_cases before : i < offset
  · rw [List.getElem?_append_left (by omega), List.getElem?_take_of_lt before, if_neg (by omega)]
  rw [List.getElem?_append_right (by omega), front]
  by_cases inside : i < offset + data.length
  · rw [List.getElem?_append_left (by omega), if_pos ⟨Nat.not_lt.mp before, inside⟩]
  · rw [List.getElem?_append_right (by omega), List.getElem?_drop, if_neg fun here => inside here.2]
    congr 2
    omega

/-- The inode holds the bytes, and zeros behind them. -/
structure Stores (s : InodeStore) (ino : UInt32) (bytes : List UInt8) : Prop where
  byte : ∀ i, s.byte ino i = bytes.getD i 0
  room : bytes ≠ [] → bytes.length / BLOCK_SIZE < (s.blocks ino).length

theorem Stores.congr {s after : InodeStore} {ino : UInt32} {bytes : List UInt8} (stores : Stores s ino bytes)
    (same : after.blocks ino = s.blocks ino) : Stores after ino bytes := by
  refine ⟨fun i => ?_, fun some => ?_⟩
  · unfold InodeStore.byte
    rw [same]
    exact stores.byte i
  · rw [same]
    exact stores.room some

end Egos.Files

namespace Egos.Blkfile
open Library Files
open Grass (Pid)
open Disk (BLOCK_SIZE)

theorem block_toNat : (UInt64.ofNat BLOCK_SIZE).toNat = BLOCK_SIZE := rfl

section Extent
variable {fileSize offset : UInt64} {size : UInt32}

structure Extended (fileSize offset : UInt64) (size : UInt32) (e : Extent) : Prop where
  final : e.finalSize.toNat = max fileSize.toNat (offset.toNat + size.toNat)
  start : e.startBlock.toNat = offset.toNat / BLOCK_SIZE
  finish : e.endBlock.toNat = (offset.toNat + size.toNat) / BLOCK_SIZE
  nblocks : offset.toNat / BLOCK_SIZE ≤ fileSize.toNat / BLOCK_SIZE →
    e.nblocks.toNat = min fileSize.toNat (offset.toNat + size.toNat) / BLOCK_SIZE - offset.toNat / BLOCK_SIZE + 1

theorem extent_extended (small : fileSize.toNat < 2 ^ 31) (fits : offset.toNat + size.toNat < 2 ^ 31) :
    Extended fileSize offset size (extent fileSize offset size) := by
  have finish : (offset + size.toUInt64).toNat = offset.toNat + size.toNat := by
    rw [UInt64.toNat_add, UInt32.toNat_toUInt64]
    omega
  have row : ∀ x : UInt64, (x / UInt64.ofNat BLOCK_SIZE).toNat = x.toNat / BLOCK_SIZE := fun x => by
    rw [UInt64.toNat_div, block_toNat]
  have count : ∀ x : UInt64, x.toNat < 2 ^ 31 → offset.toNat / BLOCK_SIZE ≤ x.toNat / BLOCK_SIZE →
      (x / UInt64.ofNat BLOCK_SIZE - offset / UInt64.ofNat BLOCK_SIZE + 1).toUInt32.toNat =
          x.toNat / BLOCK_SIZE - offset.toNat / BLOCK_SIZE + 1 := by
    intro x less le
    have bound := Nat.div_le_self x.toNat BLOCK_SIZE
    rw [UInt64.toNat_toUInt32, UInt64.toNat_add,
      UInt64.toNat_sub_of_le _ _ (by rw [UInt64.le_iff_toNat_le, row, row]; exact le), row, row,
      UInt64.toNat_one]
    generalize x.toNat / BLOCK_SIZE = last at le bound
    generalize offset.toNat / BLOCK_SIZE = first at le
    omega
  unfold extent
  dsimp only
  by_cases extends_ : fileSize < offset + size.toUInt64
  · have less := UInt64.lt_iff_toNat_lt.mp extends_
    rw [finish] at less
    rw [if_pos extends_]
    refine ⟨?_, row _, ?_, fun le => ?_⟩
    · rw [finish]
      omega
    · rw [row, finish]
    · rw [count fileSize small le, Nat.min_eq_left (by omega)]
  · have more := mt UInt64.lt_iff_toNat_lt.mpr extends_
    rw [finish] at more
    rw [if_neg extends_]
    refine ⟨by dsimp only; omega, row _, ?_, fun le => ?_⟩
    · rw [row, finish]
    · have sum := count (offset + size.toUInt64) (by omega) (by rw [finish]; exact Nat.div_le_div_right (by omega))
      rw [finish] at sum
      rw [sum, Nat.min_eq_right (by omega)]

variable {e : Extent}

theorem Extended.rows (extended : Extended fileSize offset size e) (fits : offset.toNat + size.toNat < 2 ^ 31) :
    (e.endBlock - e.startBlock + 1).toNat =
        (offset.toNat + size.toNat) / BLOCK_SIZE - offset.toNat / BLOCK_SIZE + 1 := by
  have forward : offset.toNat / BLOCK_SIZE ≤ (offset.toNat + size.toNat) / BLOCK_SIZE :=
    Nat.div_le_div_right (Nat.le_add_right ..)
  have bound := Nat.div_le_self (offset.toNat + size.toNat) BLOCK_SIZE
  have ordered : e.startBlock ≤ e.endBlock := by
    rw [UInt64.le_iff_toNat_le, extended.start, extended.finish]
    exact forward
  rw [UInt64.toNat_add, UInt64.toNat_sub_of_le _ _ ordered, extended.start, extended.finish, UInt64.toNat_one]
  generalize (offset.toNat + size.toNat) / BLOCK_SIZE = last at forward bound
  generalize offset.toNat / BLOCK_SIZE = first at forward
  omega

theorem Extended.capacity (extended : Extended fileSize offset size e) (fits : offset.toNat + size.toNat < 2 ^ 31) :
    ((e.endBlock - e.startBlock + 1) * UInt64.ofNat BLOCK_SIZE).toNat =
      ((offset.toNat + size.toNat) / BLOCK_SIZE - offset.toNat / BLOCK_SIZE + 1) * BLOCK_SIZE := by
  have bound := Nat.div_mul_le_self (offset.toNat + size.toNat) BLOCK_SIZE
  rw [UInt64.toNat_mul, extended.rows fits, block_toNat]
  generalize (offset.toNat + size.toNat) / BLOCK_SIZE = last at bound
  generalize offset.toNat / BLOCK_SIZE = first
  change last * 1024 ≤ _ at bound
  change (last - first + 1) * 1024 % 2 ^ 64 = (last - first + 1) * 1024
  omega

theorem Extended.first (extended : Extended fileSize offset size e) (fits : offset.toNat + size.toNat < 2 ^ 31) :
    e.startBlock.toUInt32.toNat = offset.toNat / BLOCK_SIZE := by
  have bound := Nat.div_le_self offset.toNat BLOCK_SIZE
  rw [UInt64.toNat_toUInt32, extended.start]
  generalize offset.toNat / BLOCK_SIZE = first at bound
  omega

end Extent

structure Flushed (s after : InodeStore) : Prop where
  uid : after.uid = s.uid
  sent : after.sent = s.sent
  blocks : ∀ ino, ino ≠ 0 → after.blocks ino = s.blocks ino

theorem flushStatCache_run (cache : Cache) (s : InodeStore) :
    ∃ after, (flushStatCache cache).run InodeStore.serve s = .done () after ∧ Flushed s after := by
  obtain ⟨after, ran, wrote⟩ := @writeBlocks_run s 0 (by decide) 0 0 cacheBlocks.toNat 0 rfl (by decide) cache.buffer
    (show (0 + cacheBlocks.toNat) * BLOCK_SIZE ≤ MAX_INODES * statSize by decide)
  refine ⟨after, ?_, wrote.uid, wrote.sent, wrote.others⟩
  unfold flushStatCache multiblockWrite
  rw [Effect.run_bind, Prog.bind_done ran]
  rfl

section Put
variable {s : InodeStore} {ino : UInt32} {bytes : List UInt8}

theorem getD_past {k : Nat} (past : bytes.length ≤ k) : bytes.getD k 0 = 0 := by
  rw [List.getD_eq_getElem?_getD, List.getElem?_eq_none past]
  rfl

variable {fileSize offset : UInt64} {size : UInt32} {e : Extent}

/-- Where no old block is read, the file has no byte. -/
theorem skipped (length : fileSize.toNat = bytes.length) (extended : Extended fileSize offset size e)
    (skip : fileSize / UInt64.ofNat BLOCK_SIZE < e.startBlock ∨ fileSize = 0) (k : Nat) :
    bytes.getD (offset.toNat / BLOCK_SIZE * BLOCK_SIZE + k) 0 = 0 := by
  apply getD_past
  rcases skip with past | empty
  · rw [UInt64.lt_iff_toNat_lt, UInt64.toNat_div, block_toNat, extended.start, length] at past
    have low := (Nat.div_lt_iff_lt_mul (by decide)).mp past
    omega
  · rw [empty] at length
    exact length ▸ Nat.zero_le _

theorem start_le (start : offset.toNat / BLOCK_SIZE ≤ bytes.length / BLOCK_SIZE) :
    offset.toNat / BLOCK_SIZE ≤ min bytes.length (offset.toNat + size.toNat) / BLOCK_SIZE := by
  rcases Nat.le_total bytes.length (offset.toNat + size.toNat) with le | le
  · rwa [Nat.min_eq_left le]
  · rw [Nat.min_eq_right le]
    exact Nat.div_le_div_right (Nat.le_add_right ..)

/-- The last row that is read. -/
theorem last_read (length : fileSize.toNat = bytes.length) (extended : Extended fileSize offset size e)
    (start : offset.toNat / BLOCK_SIZE ≤ bytes.length / BLOCK_SIZE) :
    e.nblocks.toNat + offset.toNat / BLOCK_SIZE = min bytes.length (offset.toNat + size.toNat) / BLOCK_SIZE + 1 := by
  have nblocks := extended.nblocks (length ▸ start)
  rw [length] at nblocks
  rw [nblocks, Nat.add_right_comm, Nat.sub_add_cancel (start_le start)]

/-- The rows that are not read are behind the end of the file: those of a write inside of the
file are all read. -/
theorem past_read {count k : Nat} (last : count + offset.toNat / BLOCK_SIZE =
    min bytes.length (offset.toNat + size.toNat) / BLOCK_SIZE + 1)
    (below : k < ((offset.toNat + size.toNat) / BLOCK_SIZE - offset.toNat / BLOCK_SIZE + 1) * BLOCK_SIZE)
    (unread : count ≤ k / BLOCK_SIZE) : bytes.length ≤ offset.toNat / BLOCK_SIZE * BLOCK_SIZE + k := by
  have row := (Nat.div_lt_iff_lt_mul (by decide)).mpr below
  have forward : offset.toNat / BLOCK_SIZE ≤ (offset.toNat + size.toNat) / BLOCK_SIZE :=
    Nat.div_le_div_right (Nat.le_add_right ..)
  rcases Nat.le_total bytes.length (offset.toNat + size.toNat) with le | le
  · rw [Nat.min_eq_left le] at last
    have past : bytes.length / BLOCK_SIZE < (offset.toNat / BLOCK_SIZE * BLOCK_SIZE + k) / BLOCK_SIZE := by
      rw [InodeStore.row_add]
      generalize k / BLOCK_SIZE = here at unread row
      omega
    exact Nat.le_of_lt (Nat.lt_of_div_lt_div past)
  · rw [Nat.min_eq_right le] at last
    generalize k / BLOCK_SIZE = here at unread row
    omega

/-- The buffer holds the stored bytes of the rows that are going to be written. -/
theorem oldContents_run (inside : ino.toNat < MAX_INODES) (stores : Stores s ino bytes)
    (length : fileSize.toNat = bytes.length)
    (small : bytes.length < 2 ^ 31) (fits : offset.toNat + size.toNat < 2 ^ 31)
    (extended : Extended fileSize offset size e) :
    ∃ contents : Buffer, (oldContents ino fileSize e).run InodeStore.serve s = .done (some contents) s ∧
      contents.capacity = ((offset.toNat + size.toNat) / BLOCK_SIZE - offset.toNat / BLOCK_SIZE + 1) * BLOCK_SIZE ∧
      ∀ k, k < contents.capacity → contents.byte k = bytes.getD (offset.toNat / BLOCK_SIZE * BLOCK_SIZE + k) 0 := by
  have capacity := extended.capacity fits
  unfold oldContents
  dsimp only
  by_cases skip : fileSize / UInt64.ofNat BLOCK_SIZE < e.startBlock ∨ fileSize = 0
  · rw [if_pos skip]
    exact ⟨_, rfl, capacity, fun k _ => (skipped length extended skip k).symm⟩
  · rw [if_neg skip]
    rw [not_or, UInt64.lt_iff_toNat_lt, UInt64.toNat_div, block_toNat, extended.start, length, Nat.not_lt] at skip
    have some : bytes ≠ [] := by
      rintro rfl
      exact skip.2 (UInt64.toNat_inj.mp length)
    have room := stores.room some
    have low := @start_le bytes offset size skip.1
    have last := last_read length extended skip.1
    have short : min bytes.length (offset.toNat + size.toNat) / BLOCK_SIZE ≤ bytes.length / BLOCK_SIZE :=
      Nat.div_le_div_right (Nat.min_le_left ..)
    have within : min bytes.length (offset.toNat + size.toNat) / BLOCK_SIZE ≤ (offset.toNat + size.toNat) /
        BLOCK_SIZE :=
      Nat.div_le_div_right (Nat.min_le_right ..)
    have bound := Nat.div_le_self bytes.length BLOCK_SIZE
    obtain ⟨filled, ran, same, held⟩ := @readBlocks_run s ino inside (offset.toNat / BLOCK_SIZE) 0 e.nblocks.toNat
      e.startBlock.toUInt32 (extended.first fits) (by omega) (by omega)
      (.clear ((e.endBlock - e.startBlock + 1) * UInt64.ofNat BLOCK_SIZE).toNat)
      (by
        change _ ≤ ((e.endBlock - e.startBlock + 1) * UInt64.ofNat BLOCK_SIZE).toNat
        rw [capacity]
        exact Nat.mul_le_mul_right _ (by omega))
    replace same := same.trans capacity
    refine ⟨filled, ?_, same, fun k below => ?_⟩
    · unfold multiblockRead
      rw [Effect.run_bind, Effect.run_bind, Prog.bind_assoc, Prog.bind_done ran]
      dsimp only
      rw [if_neg (by omega)]
      rfl
    · rw [held k, ← stores.byte]
      by_cases read : 0 ≤ k / BLOCK_SIZE ∧ k / BLOCK_SIZE < 0 + e.nblocks.toNat
      · rw [if_pos read]
      · have unread : e.nblocks.toNat ≤ k / BLOCK_SIZE := by
          rw [Nat.zero_add, not_and, Nat.not_lt] at read
          exact read (Nat.zero_le _)
        rw [if_neg read, stores.byte, getD_past (past_read last (same ▸ below) unread)]
        rfl

/-- The rows of the buffer, with the data in it, are written over those of the file. -/
private theorem stores_written {after : InodeStore} {contents : Buffer} {offset : Nat} {data : List UInt8}
    (stores : Stores s ino bytes)
    (capacity : contents.capacity = ((offset + data.length) / BLOCK_SIZE - offset / BLOCK_SIZE + 1) * BLOCK_SIZE)
    (old : ∀ k, k < contents.capacity → contents.byte k = bytes.getD (offset / BLOCK_SIZE * BLOCK_SIZE + k) 0)
    (wrote : InodeStore.Wrote s ino (offset / BLOCK_SIZE)
    ((offset + data.length) / BLOCK_SIZE - offset / BLOCK_SIZE + 1)
      (fun k => (contents.put (offset % BLOCK_SIZE) data).byte (k - offset / BLOCK_SIZE * BLOCK_SIZE)) after) :
    Stores after ino (writeAt bytes offset data) := by
  have whole := Nat.div_add_mod' offset BLOCK_SIZE
  have forward : offset / BLOCK_SIZE ≤ (offset + data.length) / BLOCK_SIZE := Nat.div_le_div_right (Nat.le_add_right ..)
  refine ⟨fun i => ?_, fun _ => ?_⟩
  · rw [wrote.byte i, writeAt_getD]
    by_cases row : offset / BLOCK_SIZE ≤ i / BLOCK_SIZE ∧
        i / BLOCK_SIZE < offset / BLOCK_SIZE + ((offset + data.length) / BLOCK_SIZE - offset / BLOCK_SIZE + 1)
    · have low := (Nat.le_div_iff_mul_le (by decide)).mp row.1
      have high := (Nat.div_lt_iff_lt_mul (by decide)).mp row.2
      rw [Nat.add_mul] at high
      have below : i - offset / BLOCK_SIZE * BLOCK_SIZE < contents.capacity := by
        rw [capacity]
        omega
      have before := old _ below
      rw [Nat.add_sub_cancel' low] at before
      rw [if_pos row]
      unfold Buffer.put
      dsimp only
      by_cases here : offset ≤ i ∧ i < offset + data.length
      · rw [if_pos here, if_pos (by omega)]
        congr 1
        omega
      · rw [if_neg here, if_neg (by omega), before]
    · rw [if_neg row, stores.byte, if_neg]
      intro here
      have first : offset / BLOCK_SIZE ≤ i / BLOCK_SIZE := Nat.div_le_div_right here.1
      have last : i / BLOCK_SIZE ≤ (offset + data.length) / BLOCK_SIZE := Nat.div_le_div_right (Nat.le_of_lt here.2)
      generalize i / BLOCK_SIZE = place at row first last
      omega
  · rw [wrote.length, if_neg (Nat.succ_ne_zero _), writeAt_length]
    rcases Nat.le_total bytes.length (offset + data.length) with le | le
    · rw [Nat.max_eq_right le]
      generalize (offset + data.length) / BLOCK_SIZE = last at forward
      generalize offset / BLOCK_SIZE = first at forward
      omega
    · rw [Nat.max_eq_left le]
      by_cases none : bytes = []
      · rw [none, List.length_nil, Nat.zero_div]
        exact Nat.lt_of_lt_of_le (Nat.succ_pos _) (Nat.le_max_right ..)
      · exact Nat.lt_of_lt_of_le (stores.room none) (Nat.le_max_left ..)

/-- blkfile_put writes the data into the byte string. -/
theorem put_run (inside : ino.toNat < MAX_INODES) (some : ino ≠ 0) (stores : Stores s ino bytes) (cache : Cache)
    {stat : FileStat}
    (length : stat.stSize.toNat = bytes.length) (small : bytes.length < 2 ^ 31) {offset : UInt64}
    {size : UInt32} {data : List UInt8}
    (count : size.toNat = data.length) (fits : offset.toNat + data.length < 2 ^ 31) :
    ∃ finalSize after, (put cache ino stat offset data size).run InodeStore.serve s =
      .done (.some (cache.put ino { stat with stSize := finalSize })) after ∧
      finalSize.toNat = (writeAt bytes offset.toNat data).length ∧ Stores after ino (writeAt bytes offset.toNat data) ∧
      after.uid = s.uid ∧ after.sent = s.sent ∧ ∀ other, other ≠ ino → other ≠ 0 →
          after.blocks other = s.blocks other := by
  have extended := @extent_extended stat.stSize offset size (length ▸ small) (count ▸ fits)
  obtain ⟨contents, read, capacity, old⟩ := oldContents_run inside stores length small (count ▸ fits) extended
  have whole := Nat.div_add_mod' offset.toNat BLOCK_SIZE
  have forward : offset.toNat / BLOCK_SIZE ≤ (offset.toNat + size.toNat) / BLOCK_SIZE :=
    Nat.div_le_div_right (Nat.le_add_right ..)
  have bound := Nat.div_le_self (offset.toNat + size.toNat) BLOCK_SIZE
  have finish := Nat.lt_div_mul_add (a := offset.toNat + size.toNat) (b := BLOCK_SIZE) (by decide)
  have rows : ((extent stat.stSize offset size).endBlock -
    (extent stat.stSize offset size).startBlock + 1).toUInt32.toNat =
      (offset.toNat + size.toNat) / BLOCK_SIZE - offset.toNat / BLOCK_SIZE + 1 := by
    rw [UInt64.toNat_toUInt32, extended.rows (count ▸ fits)]
    generalize (offset.toNat + size.toNat) / BLOCK_SIZE = last at bound
    generalize offset.toNat / BLOCK_SIZE = first
    omega
  have first : (extent stat.stSize offset size).startBlock.toUInt32.toNat = offset.toNat / BLOCK_SIZE + 0 :=
    extended.first (count ▸ fits)
  have enough : ¬ contents.capacity < offset.toNat % BLOCK_SIZE + size.toNat := by
    rw [capacity, Nat.add_mul, Nat.sub_mul]
    omega
  obtain ⟨middle, written, wrote⟩ := @writeBlocks_run s ino inside (offset.toNat / BLOCK_SIZE) 0
    ((extent stat.stSize offset size).endBlock - (extent stat.stSize offset size).startBlock + 1).toUInt32.toNat _ first
    (by rw [rows]; omega) (contents.put (offset.toNat % BLOCK_SIZE) data)
    (by rw [rows, Nat.zero_add]; exact Nat.le_of_eq capacity.symm)
  rw [rows] at wrote
  have stored := @stores_written s ino bytes middle contents offset.toNat data stores (count ▸
    capacity) old (count ▸ wrote)
  obtain ⟨after, flushed, kept⟩ := flushStatCache_run
    (cache.put ino { stat with stSize := (extent stat.stSize offset size).finalSize }) middle
  refine ⟨(extent stat.stSize offset size).finalSize, after, ?_, ?_, stored.congr (kept.blocks ino some),
    kept.uid.trans wrote.uid, kept.sent.trans wrote.sent, fun other apart positive => ?_⟩
  · unfold put
    dsimp only
    rw [Effect.run_bind, Prog.bind_done read]
    dsimp only
    rw [if_neg enough, Effect.run_bind]
    unfold multiblockWrite
    rw [Prog.bind_done written]
    dsimp only
    rw [Effect.run_bind, Prog.bind_done flushed]
    rfl
  · rw [extended.final, writeAt_length, length, count]
  · rw [kept.blocks other positive, wrote.others other apart]

end Put

section Read
variable {s : InodeStore} {bytes : List UInt8} {stat : FileStat} {req : FileRequest}

def InodeStore.reply (s : InodeStore) (src : Pid) (reply : FileReply) : InodeStore :=
  { s with sent := s.sent ++ [(src, reply)] }

theorem send_call (src : Pid) (reply : FileReply) (s : InodeStore) :
    (call (.send src reply)).run InodeStore.serve s = .done () (InodeStore.reply s src reply) := by
  unfold call
  rw [Effect.run_perform]
  rfl

theorem freeReply_run {ext : UInt32} (fits : ext.toNat < 2 ^ 32 - 56) (s : InodeStore) :
    (freeReply ext).run InodeStore.serve s = .done () s := by
  have below : FileReply.size + ext.toNat + 16 < 2 ^ 32 := by
    change 40 + _ + 16 < _
    omega
  unfold freeReply
  rw [if_pos below]
  rfl

/-- The bytes in memory from an index on. -/
theorem slice_eq {contents : Buffer} {start first count : Nat} (long : first + count ≤ bytes.length)
    (held : ∀ i, i < count → contents.byte (start + i) = bytes.getD (first + i) 0) :
    contents.slice start count = (bytes.drop first).take count := by
  unfold Buffer.slice
  apply List.ext_getElem
  · rw [List.length_map, List.length_range, List.length_take, List.length_drop]
    omega
  · intro i low high
    have below : i < count := by
      rwa [List.length_map, List.length_range] at low
    rw [List.getElem_map, List.getElem_range, held i below, List.getElem_take, List.getElem_drop,
      List.getD_eq_getElem?_getD,
      List.getElem?_eq_getElem (by omega)]
    rfl

/-- A read of at least one byte before the end of the file. -/
theorem readContents_run (inside : req.ino.toNat < MAX_INODES) (stores : Stores s req.ino bytes) (cache : Cache)
    (length : stat.stSize.toNat = bytes.length)
    (small : bytes.length < 2 ^ 31) (before : req.offset.toNat < bytes.length)
    (fits : req.size.toNat < 2 ^ 32 - 56) (src : Pid) :
    (readContents cache req stat src).run InodeStore.serve s = .done cache (InodeStore.reply s src
      (readReply (UInt64.ofNat ((bytes.drop req.offset.toNat).take req.size.toNat).length)
          ((bytes.drop req.offset.toNat).take req.size.toNat))) := by
  have left : (stat.stSize - req.offset).toUInt32.toNat = bytes.length - req.offset.toNat := by
    rw [UInt64.toNat_toUInt32, UInt64.toNat_sub_of_le _ _
      (by rw [UInt64.le_iff_toNat_le, length]; exact Nat.le_of_lt before), length]
    omega
  unfold readContents
  dsimp only
  generalize bound : (if req.size < (stat.stSize - req.offset).toUInt32 then req.size else
    (stat.stSize - req.offset).toUInt32) = n
  have count : n.toNat = min req.size.toNat (bytes.length - req.offset.toNat) := by
    rw [← bound]
    by_cases less : req.size < (stat.stSize - req.offset).toUInt32
    · rw [if_pos less]
      rw [UInt32.lt_iff_toNat_lt, left] at less
      omega
    · rw [if_neg less, left]
      rw [UInt32.lt_iff_toNat_lt, left] at less
      omega
  have size : ((bytes.drop req.offset.toNat).take req.size.toNat).length = n.toNat := by
    rw [List.length_take, List.length_drop, count]
  have cut : (bytes.drop req.offset.toNat).take req.size.toNat = (bytes.drop req.offset.toNat).take n.toNat := by
    rw [count, ← List.length_drop, List.take_eq_take_min]
  have finish : (req.offset + n.toUInt64).toNat = req.offset.toNat + n.toNat := by
    rw [UInt64.toNat_add, UInt32.toNat_toUInt64]
    omega
  have forward : req.offset.toNat / BLOCK_SIZE ≤ (req.offset.toNat + n.toNat) / BLOCK_SIZE :=
    Nat.div_le_div_right (Nat.le_add_right ..)
  have limit : (req.offset.toNat + n.toNat) / BLOCK_SIZE ≤ bytes.length / BLOCK_SIZE := Nat.div_le_div_right (by omega)
  have whole := Nat.div_add_mod' req.offset.toNat BLOCK_SIZE
  have after := Nat.lt_div_mul_add (a := req.offset.toNat + n.toNat) (b := BLOCK_SIZE) (by decide)
  have room := stores.room (List.ne_nil_of_length_pos (Nat.zero_lt_of_lt before))
  have large := (Nat.div_lt_iff_lt_mul (show 0 < BLOCK_SIZE by decide)).mpr
    (show bytes.length < 2097152 * BLOCK_SIZE from small)
  have firstRow : (req.offset / UInt64.ofNat BLOCK_SIZE).toUInt32.toNat = req.offset.toNat / BLOCK_SIZE := by
    rw [UInt64.toNat_toUInt32, UInt64.toNat_div, block_toNat]
    generalize req.offset.toNat / BLOCK_SIZE = first at *
    omega
  have lastRow : ((req.offset + n.toUInt64) / UInt64.ofNat BLOCK_SIZE).toUInt32.toNat =
      (req.offset.toNat + n.toNat) / BLOCK_SIZE := by
    rw [UInt64.toNat_toUInt32, UInt64.toNat_div, block_toNat, finish]
    omega
  generalize (req.offset / UInt64.ofNat BLOCK_SIZE).toUInt32 = first at firstRow ⊢
  generalize ((req.offset + n.toUInt64) / UInt64.ofNat BLOCK_SIZE).toUInt32 = last at lastRow ⊢
  have rows : (last - first + 1).toNat =
      (req.offset.toNat + n.toNat) / BLOCK_SIZE - req.offset.toNat / BLOCK_SIZE + 1 := by
    rw [UInt32.toNat_add, UInt32.toNat_sub_of_le _ _ (by rw [UInt32.le_iff_toNat_le, firstRow, lastRow]; exact forward),
      firstRow, lastRow,
      UInt32.toNat_one]
    omega
  have capacity : ((last - first + 1) * UInt32.ofNat BLOCK_SIZE).toNat = (last - first + 1).toNat * BLOCK_SIZE := by
    rw [UInt32.toNat_mul, rows]
    change _ * 1024 % 2 ^ 32 = _ * 1024
    omega
  obtain ⟨filled, ran, same, held⟩ := @readBlocks_run s req.ino inside (req.offset.toNat / BLOCK_SIZE) 0
    (last - first + 1).toNat first firstRow
    (by omega) (by omega) (.clear ((last - first + 1) * UInt32.ofNat BLOCK_SIZE).toNat)
    (by rw [Nat.zero_add]; exact Nat.le_of_eq capacity.symm)
  have roomy : ¬ filled.capacity < req.offset.toNat % BLOCK_SIZE + n.toNat := by
    rw [same]
    change ¬ ((last - first + 1) * UInt32.ofNat BLOCK_SIZE).toNat < _
    rw [capacity, rows, Nat.add_mul, Nat.sub_mul]
    omega
  have copied : filled.slice (req.offset.toNat % BLOCK_SIZE) n.toNat = (bytes.drop req.offset.toNat).take n.toNat := by
    refine slice_eq (by omega) fun i below => ?_
    have row : (req.offset.toNat % BLOCK_SIZE + i) / BLOCK_SIZE < 0 + (last - first + 1).toNat := by
      rw [Nat.div_lt_iff_lt_mul (by decide), Nat.zero_add, rows, Nat.add_mul, Nat.sub_mul]
      omega
    rw [held, if_pos ⟨Nat.zero_le _, row⟩, stores.byte, ← Nat.add_assoc, whole]
  rw [size, cut, ← copied]
  unfold multiblockRead
  rw [Effect.run_bind, Effect.run_bind, Prog.bind_assoc, Prog.bind_done ran]
  dsimp only
  rw [if_neg (by omega)]
  have counted : ¬ 0 + (last - first + 1).toNat ≠ (last - first + 1).toNat := by
    rw [Nat.zero_add]; exact not_not_intro rfl
  have value : n.toUInt64 = UInt64.ofNat n.toNat := by
    apply UInt64.toNat_inj.mp
    rw [UInt32.toNat_toUInt64, UInt64.toNat_ofNat_of_lt' (Nat.lt_trans n.toNat_lt (by decide))]
  have got : (pure (some (0 + (last - first + 1).toNat, filled)) : Server (Option (Nat × Buffer))).run
    InodeStore.serve s =
      .done (some (0 + (last - first + 1).toNat, filled)) s := rfl
  rw [← value, Prog.bind_done got]
  dsimp only
  rw [if_neg counted, if_neg roomy, Effect.run_bind, Prog.bind_done (send_call ..), Effect.run_bind,
    Prog.bind_done (freeReply_run fits _)]
  rfl

end Read

end Egos.Blkfile
