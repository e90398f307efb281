import Egos.Grass.SpawnArgs
import Mathlib.Tactic.Ring

/-! What a new process reads of its arguments. -/

namespace Egos.SpawnArgs
open Library
open UserCopy (Address VIRT_BASE VIRT_TOP InRange)

def stringsSize (argv : List Arg) : Nat := (argv.map Arg.size).sum

def stringsStart (argv : List Arg) : Nat := (argv.length + 1) * pointerSize

def stringStart (argv : List Arg) (i : Nat) : Nat := stringsStart argv + stringsSize (argv.take i)

def blockSize (argv : List Arg) : Nat := (stringsStart argv + stringsSize argv + envSize + 15) / 16 * 16

def StringAt (m : Memory) (a : Nat) (arg : Arg) : Prop := ∀ k < arg.size, m (a + k) = (arg.bytes ++ [0]).getD k 0

structure Filled (argv : List Arg) (v1 s1 : Nat) (s2 : Address) (before after : Memory) : Prop where
  outside : ∀ x, (x < v1 ∨ v1 + stringsStart argv ≤ x) → (x < s1 ∨ s1 + stringsSize argv ≤ x) → after x = before x
  pointers : ∀ i < argv.length, after.load64 (v1 + pointerSize * i) = (s2 + .ofNat (stringsSize (argv.take i))).toNat
  last : after.load64 (v1 + pointerSize * argv.length) = 0
  strings : ∀ (i : Nat) (inside : i < argv.length), StringAt after (s1 + stringsSize (argv.take i)) argv[i]

section Fill
variable {argv : List Arg} {arg : Arg} {v1 s1 : Nat} {s2 : Address} {block : Memory}

@[simp] theorem stringsSize_cons : stringsSize (arg :: argv) = arg.size + stringsSize argv := rfl

theorem stringsStart_cons : stringsStart (arg :: argv) = stringsStart argv + pointerSize := by
  simp only [stringsStart, List.length_cons, pointerSize]
  omega

/-- A length that is no negative `int`. -/
theorem len_eq (small : arg.size < 2 ^ 31) : arg.len = .ofNat arg.size := by
  unfold Arg.len UInt64.ofInt
  rw [Int32.toInt_ofNat_of_lt small]
  exact congrArg UInt64.ofNat (by omega)

theorem fill_filled (apart : v1 + stringsStart argv ≤ s1) (small : s1 + stringsSize argv < 2 ^ 31) :
    Filled argv v1 s1 s2 block (fill argv v1 (.ofNat s1) s2 block) := by
  induction argv generalizing v1 s1 s2 block with
  | nil =>
    refine ⟨fun x outside _ => Memory.store64_outside outside, fun i none => absurd none (Nat.not_lt_zero i),
      ?_, fun i none => absurd none (Nat.not_lt_zero i)⟩
    exact Memory.load64_store64_of_lt (Nat.two_pow_pos 64)
  | cons arg rest ih =>
    rw [stringsStart_cons] at apart
    have width : pointerSize = 8 := rfl
    have room : 8 ≤ stringsStart rest := Nat.le_mul_of_pos_left 8 (Nat.succ_pos _)
    have length : (arg.bytes ++ [0]).length = arg.size := List.length_append
    rw [stringsSize_cons] at small
    have start : (UInt64.ofNat s1).toNat = s1 := UInt64.toNat_ofNat_of_lt' (by unfold UInt64.size; omega)
    have later := @ih (v1 + pointerSize) (s1 + arg.size) (s2 + .ofNat arg.size)
      ((block.storeBytes s1 (arg.bytes ++ [0])).store64 v1 s2.toNat) (by omega) (by omega)
    unfold fill
    rw [start, len_eq (by omega), ← UInt64.ofNat_add]
    refine ⟨fun x pointers strings => ?_, fun i inside => ?_, ?_, fun i inside => ?_⟩
    · rw [stringsStart_cons] at pointers
      rw [stringsSize_cons] at strings
      refine (later.outside x (by omega) (by omega)).trans ?_
      exact (Memory.store64_outside (by omega)).trans (Memory.storeBytes_outside (by omega))
    · cases i with
      | zero =>
        have kept : (fill rest (v1 + pointerSize) (.ofNat (s1 + arg.size)) (s2 + .ofNat arg.size)
            ((block.storeBytes s1 (arg.bytes ++ [0])).store64 v1 s2.toNat)).load64 v1 = _ :=
          Memory.load64_congr fun x _ _ => later.outside x (by omega) (by omega)
        have first : s2 + .ofNat (stringsSize ((arg :: rest).take 0)) = s2 := UInt64.add_zero s2
        rw [first]
        exact kept.trans (Memory.load64_store64_of_lt s2.toNat_lt)
      | succ i =>
        have pointer := later.pointers i (Nat.lt_of_succ_lt_succ inside)
        have place : v1 + pointerSize * (i + 1) = v1 + pointerSize + pointerSize * i := by
          rw [Nat.mul_succ]
          omega
        have sum : s2 + .ofNat (stringsSize ((arg :: rest).take (i + 1))) =
            s2 + .ofNat arg.size + .ofNat (stringsSize (rest.take i)) := by
          rw [List.take_succ_cons, stringsSize_cons, UInt64.ofNat_add, UInt64.add_assoc]
        rw [place, sum]
        exact pointer
    · have place : v1 + pointerSize * (arg :: rest).length = v1 + pointerSize + pointerSize * rest.length := by
        rw [List.length_cons, Nat.mul_succ]
        omega
      rw [place]
      exact later.last
    · cases i with
      | zero =>
        intro k within
        have here : s1 + stringsSize ((arg :: rest).take 0) + k = s1 + k := rfl
        have size : k < arg.size := within
        rw [here]
        refine (later.outside _ (by omega) (by omega)).trans ((Memory.store64_outside (by omega)).trans ?_)
        exact Memory.storeBytes_inside (length ▸ size)
      | succ i =>
        intro k within
        have here : s1 + stringsSize ((arg :: rest).take (i + 1)) + k =
            s1 + arg.size + stringsSize (rest.take i) + k := by
          rw [List.take_succ_cons, stringsSize_cons]
          omega
        rw [here]
        exact later.strings i (Nat.lt_of_succ_lt_succ inside) k within

end Fill

/-! The size of the block. -/

theorem foldl_size {total : UInt32} (argv : List Arg) :
    (argv.foldl (fun total arg => total + .ofNat arg.size) total).toNat =
        (total.toNat + stringsSize argv) % 2 ^ 32 := by
  induction argv generalizing total with
  | nil => exact (Nat.mod_eq_of_lt total.toNat_lt).symm
  | cons arg rest ih =>
    rw [List.foldl_cons, ih, stringsSize_cons, UInt32.toNat_add, UInt32.toNat_ofNat', Nat.add_mod_mod,
      Nat.mod_add_mod, Nat.add_assoc]

theorem align_toNat {total : UInt32} (fits : (total.toNat + 15) / 16 * 16 < 2 ^ 32) :
    (if total % ALIGNMENT > 0 then total + (ALIGNMENT - total % ALIGNMENT) else total).toNat =
        (total.toNat + 15) / 16 * 16 := by
  have rem : (total % ALIGNMENT).toNat = total.toNat % 16 := UInt32.toNat_mod ..
  by_cases some : total % ALIGNMENT > 0
  · have positive : 0 < (total % ALIGNMENT).toNat := some
    have small : total % ALIGNMENT ≤ ALIGNMENT := by
      refine UInt32.le_iff_toNat_le.mpr ?_
      rw [rem]
      exact (Nat.mod_lt _ (by decide)).le
    have pad : (ALIGNMENT - total % ALIGNMENT).toNat = 16 - (total % ALIGNMENT).toNat :=
      UInt32.toNat_sub_of_le _ _ small
    rw [if_pos some, UInt32.toNat_add, pad, rem]
    rw [rem] at positive
    omega
  · have none : (total % ALIGNMENT).toNat = 0 := Nat.eq_zero_of_not_pos some
    rw [if_neg some]
    rw [rem] at none
    omega

/-- Without a wrap the block has the size that is needed. -/
theorem totalSize_eq {argv : List Arg} (fits : blockSize argv < 2 ^ 32) : (totalSize argv).toNat = blockSize argv := by
  have folded := @foldl_size (.ofNat ((argv.length + 1) * pointerSize + envSize)) argv
  have sum : (stringsStart argv + envSize) % 2 ^ 32 + stringsSize argv =
      stringsStart argv + stringsSize argv + envSize := by
    unfold blockSize at fits
    omega
  rw [UInt32.toNat_ofNat', ← stringsStart, sum, Nat.mod_eq_of_lt (by unfold blockSize at fits; omega)] at folded
  have start : (argv.length + 1) * pointerSize = stringsStart argv := rfl
  unfold totalSize
  dsimp only
  rw [start, align_toNat (by rw [folded]; exact fits), folded]
  rfl

/-! The memory of the user. -/

section User
variable {self size : UInt32} {block : Memory} {user : Address → UInt8} {n : Nat}

/-- The bytes from VIRT_BASE to the end of GRASS_ENV. -/
def stackRoom : Nat := (envEnd - VIRT_BASE).toNat

theorem copyUser_outside {bytes : List UInt8} {virt : Address} (some : bytes ≠ []) (outside : ¬ InRange virt) :
    copyUser bytes virt user = none := by
  cases bytes with
  | nil => exact absurd rfl some
  | cons byte rest => exact if_neg outside

/-- The bytes are copied, and the rest of the user's memory stays as it is. -/
theorem copyUser_inside {bytes : List UInt8} {virt : Address}
    (inside : ∀ i < bytes.length, InRange (virt + .ofNat i)) (few : bytes.length < 2 ^ 64) :
    ∃ after, copyUser bytes virt user = some after ∧ (∀ i < bytes.length, after (virt + .ofNat i) = bytes.getD i 0) ∧
      ∀ a, (∀ i < bytes.length, a ≠ virt + .ofNat i) → after a = user a := by
  induction bytes generalizing virt user with
  | nil => exact ⟨user, rfl, fun i none => absurd none (Nat.not_lt_zero i), fun _ _ => rfl⟩
  | cons byte rest ih =>
    rw [List.length_cons] at inside few
    have next : ∀ i, virt + 1 + .ofNat i = virt + .ofNat (i + 1) := fun i => by
      rw [UInt64.ofNat_add, UInt64.add_assoc, UInt64.add_comm 1]
      rfl
    have here : InRange virt := UInt64.add_zero virt ▸ inside 0 (Nat.succ_pos _)
    obtain ⟨after, ran, copied, kept⟩ := @ih (fun a => if a = virt then byte else user a) (virt + 1)
      (fun i within => next i ▸ inside (i + 1) (Nat.succ_lt_succ within)) (Nat.lt_of_succ_lt few)
    refine ⟨after, (if_pos here).trans ran, fun i within => ?_, fun a others => ?_⟩
    · cases i with
      | zero =>
        have first : virt + .ofNat 0 = virt := UInt64.add_zero virt
        rw [first, kept virt fun i within same => ?_]
        · exact if_pos rfl
        · -- the later bytes do not come round to this one
          rw [next] at same
          have zero : UInt64.ofNat (i + 1) = 0 := by grind
          have value : (UInt64.ofNat (i + 1)).toNat = i + 1 :=
            UInt64.toNat_ofNat_of_lt' (Nat.lt_of_lt_of_le (Nat.succ_lt_succ within) few.le)
          rw [zero] at value
          cases value
      | succ i =>
        rw [← next]
        exact copied i (Nat.lt_of_succ_lt_succ within)
    · rw [kept a fun i within => next i ▸ others (i + 1) (Nat.succ_lt_succ within)]
      exact if_neg fun same => others 0 (Nat.succ_pos _) (same.trans (UInt64.add_zero virt).symm)

theorem userSp_toNat : (userSp size).toNat = envEnd.toNat - size.toNat := by
  have small : size.toUInt64 ≤ envEnd := by
    rw [UInt64.le_iff_toNat_le, UInt32.toNat_toUInt64]
    exact Nat.le_trans size.toNat_lt.le (by decide)
  unfold userSp
  rw [UInt64.toNat_sub_of_le _ _ small, UInt32.toNat_toUInt64]

theorem stack_inside (fits : size.toNat ≤ stackRoom) {i : Nat} (inside : i < size.toNat) :
    InRange (userSp size + .ofNat i) := by
  have room : stackRoom = 1048568 := by decide
  have ends : envEnd.toNat = 68720525304 := by decide
  have sum : (userSp size + .ofNat i).toNat = envEnd.toNat - size.toNat + i := by
    rw [UInt64.toNat_add, userSp_toNat, UInt64.toNat_ofNat_of_lt' (by unfold UInt64.size; omega),
      Nat.mod_eq_of_lt (by omega)]
  have base : VIRT_BASE.toNat = 68719476736 := by decide
  have top : VIRT_TOP.toNat = 68720525312 := by decide
  unfold InRange
  rw [UInt64.le_iff_toNat_le, UInt64.lt_iff_toNat_lt, sum]
  omega

/-- The block with the process identifier is what the user finds there. -/
theorem userProc_inside (fits : size.toNat ≤ stackRoom) : ∃ after, userProc self block size user = some after ∧
    ∀ i < size.toNat, after (userSp size + .ofNat i) =
        block.store32 (size.toNat - envSize + selfOffset) self.toNat i := by
  unfold userProc
  dsimp only
  generalize block.store32 (size.toNat - envSize + selfOffset) self.toNat = m
  have length : ((List.range size.toNat).map m).length = size.toNat := by
    rw [List.length_map, List.length_range]
  have inside : ∀ i < ((List.range size.toNat).map m).length, InRange (userSp size + .ofNat i) := fun i within =>
    stack_inside fits (length.symm ▸ within)
  obtain ⟨after, ran, copied, -⟩ := @copyUser_inside user _ (userSp size) inside
    (by rw [length]; exact Nat.lt_trans size.toNat_lt (by decide))
  refine ⟨after, ran, fun i within => ?_⟩
  have within : i < ((List.range size.toNat).map m).length := by rwa [length]
  rw [copied i within, List.getD_eq_getElem _ _ within, List.getElem_map, List.getElem_range]

/-- A process whose block is larger is terminated. -/
theorem userProc_large (large : stackRoom < size.toNat) : userProc self block size user = none := by
  have room : stackRoom = 1048568 := by decide
  have ends : envEnd.toNat = 68720525304 := by decide
  have base : VIRT_BASE.toNat = 68719476736 := by decide
  refine copyUser_outside (fun none => ?_) fun inside => ?_
  · have length := congrArg List.length none
    rw [List.length_map, List.length_range, List.length_nil] at length
    omega
  · have above := UInt64.le_iff_toNat_le.mp inside.1
    rw [userSp_toNat] at above
    omega

/-- The user sees the block through a window. -/
theorem window_at {image : Address → UInt8} {base : Address} {m : Memory}
    (shows : ∀ i < n, image (base + .ofNat i) = m i) {a k : Nat} (inside : a + k < n) :
    window image (base + .ofNat a) k = m (a + k) := by
  unfold window
  rw [UInt64.add_assoc, ← UInt64.ofNat_add]
  exact shows _ inside

theorem read32_at {image : Address → UInt8} {base : Address} {m : Memory}
    (shows : ∀ i < n, image (base + .ofNat i) = m i) {a : Nat} (inside : a + 4 ≤ n) :
    read32 image (base + .ofNat a) = m.load32 a := by
  have byte : ∀ k < 4, window image (base + .ofNat a) k = m (a + k) := fun k small => window_at shows (by omega)
  unfold read32 Memory.load32
  rw [byte 0 (by decide), byte 1 (by decide), byte 2 (by decide), byte 3 (by decide)]
  rfl

theorem read64_at {image : Address → UInt8} {base : Address} {m : Memory}
    (shows : ∀ i < n, image (base + .ofNat i) = m i) {a : Nat} (inside : a + 8 ≤ n) :
    read64 image (base + .ofNat a) = m.load64 a := by
  have byte : ∀ k < 8, window image (base + .ofNat a) k = m (a + k) := fun k small => window_at shows (by omega)
  unfold read64 Memory.load64 Memory.load32
  rw [byte 0 (by decide), byte 1 (by decide), byte 2 (by decide), byte 3 (by decide), byte 4 (by decide),
    byte 5 (by decide), byte 6 (by decide),
    byte 7 (by decide)]
  rfl

/-- GRASS_ENV is at the end of the block. -/
theorem grassEnv_offset (large : envSize ≤ size.toNat) (k : Nat) :
    grassEnv + .ofNat k = userSp size + .ofNat (size.toNat - envSize + k) := by
  have whole : UInt64.ofNat size.toNat = size.toUInt64 := UInt64.toNat_inj.mp (by
    rw [UInt64.toNat_ofNat_of_lt' (Nat.lt_trans size.toNat_lt (by decide)), UInt32.toNat_toUInt64])
  have rest : UInt64.ofNat (size.toNat - envSize) = size.toUInt64 - .ofNat envSize := by
    rw [UInt64.ofNat_sub large, whole]
  unfold grassEnv userSp
  rw [UInt64.ofNat_add, rest]
  grind

end User

/-- What a process reads through GRASS_ENV, and where it is: the pointers, the strings and the
environment stand one after the other in the block. -/
structure ReadsBack (init : Memory) (argv : List Arg) (pid size : UInt32) (user : Address → UInt8) : Prop where
  whole : 16 ∣ size.toNat
  top : userSp size + .ofNat size.toNat = grassEnv + .ofNat envSize
  self : read32 user (grassEnv + .ofNat selfOffset) = pid.toNat
  argc : read32 user (grassEnv + .ofNat argcOffset) = argv.length
  vector : read64 user (grassEnv + .ofNat argvOffset) = (userSp size).toNat
  envp : read64 user (grassEnv + .ofNat envpOffset) = 0
  servers : ∀ i, selfOffset + 4 ≤ i → i < argcOffset → user (grassEnv + .ofNat i) = init i
  files : ∀ i, envpOffset + 8 ≤ i → i < envSize → user (grassEnv + .ofNat i) = init i
  pointers : ∀ i < argv.length, read64 user (userSp size + .ofNat (pointerSize * i)) =
    (userSp size + .ofNat (stringStart argv i)).toNat
  last : read64 user (userSp size + .ofNat (pointerSize * argv.length)) = 0
  strings : ∀ (i : Nat) (inside : i < argv.length),
    StringAt (window user (userSp size + .ofNat (stringStart argv i))) 0 argv[i]
  first : stringStart argv 0 = pointerSize * (argv.length + 1)
  next : ∀ (i : Nat) (inside : i < argv.length), stringStart argv i + argv[i].size = stringStart argv (i + 1)
  ends : stringStart argv argv.length + envSize ≤ size.toNat

/-! The environment in the block. -/

section Environment
variable {ge argc : Nat} {init block : Memory} {v2 : Address}

theorem placeEnv_argc (small : argc < 2 ^ 32) : (placeEnv ge init argc v2 block).load32 (ge + argcOffset) = argc := by
  have kept : ∀ m : Memory, ∀ value, (m.store64 (ge + argvOffset) v2.toNat |>.store64 (ge + envpOffset) value).load32
    (ge + argcOffset) =
      m.load32 (ge + argcOffset) := fun m value => Memory.load32_congr fun x _ below =>
    (Memory.store64_outside (.inl (by unfold argcOffset at below; unfold envpOffset; omega))).trans
      (Memory.store64_outside (.inl (by unfold argcOffset at below; unfold argvOffset; omega)))
  exact (kept _ 0).trans (Memory.load32_store32_of_lt small)

theorem placeEnv_argv : (placeEnv ge init argc v2 block).load64 (ge + argvOffset) = v2.toNat := by
  have kept : ∀ m : Memory, (m.store64 (ge + envpOffset) 0).load64 (ge + argvOffset) =
      m.load64 (ge + argvOffset) := fun m =>
    Memory.load64_congr fun x _ below => Memory.store64_outside
      (.inl (by unfold argvOffset at below; unfold envpOffset; omega))
  exact (kept _).trans (Memory.load64_store64_of_lt v2.toNat_lt)

theorem placeEnv_envp : (placeEnv ge init argc v2 block).load64 (ge + envpOffset) = 0 :=
  Memory.load64_store64_of_lt (Nat.two_pow_pos 64)

theorem placeEnv_other {i : Nat} (inside : i < envSize) (other : i < argcOffset ∨ envpOffset + 8 ≤ i) :
    placeEnv ge init argc v2 block (ge + i) = init i := by
  have length : ((List.range envSize).map init).length = envSize := by rw [List.length_map, List.length_range]
  unfold placeEnv
  unfold argcOffset envpOffset at other
  refine (Memory.store64_outside (by unfold envpOffset; omega)).trans
    ((Memory.store64_outside (by unfold argvOffset; omega)).trans ?_)
  refine (Memory.store32_outside (by unfold argcOffset; omega)).trans
    ((Memory.storeBytes_inside (length ▸ inside)).trans ?_)
  rw [List.getD_eq_getElem _ _ (length ▸ inside), List.getElem_map, List.getElem_range]

end Environment

/-! All of it. -/

section Whole
variable {argv : List Arg}

theorem stringsSize_take_succ {i : Nat} (inside : i < argv.length) :
    stringsSize (argv.take (i + 1)) = stringsSize (argv.take i) + argv[i].size := by
  unfold stringsSize
  rw [List.take_succ_eq_append_getElem inside, List.map_append, List.sum_append]
  rfl

theorem stringsSize_take_le (i : Nat) : stringsSize (argv.take i) ≤ stringsSize argv := by
  have apart := congrArg stringsSize (List.take_append_drop i argv)
  have sum : stringsSize (argv.take i ++ argv.drop i) = stringsSize (argv.take i) + stringsSize (argv.drop i) := by
    unfold stringsSize
    rw [List.map_append, List.sum_append]
  omega

/-- The pointer is before the strings. -/
theorem pointer_inside {i : Nat} (inside : i ≤ argv.length) : pointerSize * i + 8 ≤ stringsStart argv := by
  unfold stringsStart pointerSize
  omega

/-- The string ends before the environment. -/
theorem string_inside {i : Nat} (inside : i < argv.length) :
    stringStart argv i + argv[i].size + envSize ≤ blockSize argv := by
  have next := stringsSize_take_succ inside
  have below := @stringsSize_take_le argv (i + 1)
  unfold stringStart blockSize
  omega

theorem blockSize_multiple (argv : List Arg) : 16 ∣ blockSize argv :=
  Nat.dvd_mul_left 16 ((stringsStart argv + stringsSize argv + envSize + 15) / 16)

theorem blockSize_large : stringsStart argv + stringsSize argv + envSize ≤ blockSize argv := by
  unfold blockSize
  omega

end Whole

/-- The block with the process identifier is read back. -/
theorem readsBack_of {init : Memory} {argv : List Arg} {pid size : UInt32} {env kernel block : Memory}
    {user : Address → UInt8}
    (sized : size.toNat = blockSize argv) (few : argv.length < 2 ^ 32)
    (placed : env = placeEnv (size.toNat - envSize) init argv.length (userSp size) block)
    (filled : Filled argv 0 (stringsStart argv) (userSp size + .ofNat (stringsStart argv)) env kernel)
    (shows : ∀ i < size.toNat, user (userSp size + .ofNat i) =
    kernel.store32 (size.toNat - envSize + selfOffset) pid.toNat i) :
    ReadsBack init argv pid size user := by
  have large := @blockSize_large argv
  have vector : stringsStart argv = (argv.length + 1) * 8 := rfl
  have length : envSize = 128 := rfl
  have room : envSize ≤ size.toNat := by omega
  have inEnv : ∀ x, size.toNat - envSize + 4 ≤ x →
      kernel.store32 (size.toNat - envSize + selfOffset) pid.toNat x = env x := fun x above =>
    (Memory.store32_outside (by rw [selfOffset]; omega)).trans (filled.outside x (by omega) (by omega))
  have inArgs : ∀ x, x < size.toNat - envSize →
      kernel.store32 (size.toNat - envSize + selfOffset) pid.toNat x = kernel x := fun x below =>
    Memory.store32_outside (by rw [selfOffset]; omega)
  have other : ∀ i, i < envSize → 4 ≤ i → i < argcOffset ∨ envpOffset + 8 ≤ i →
      user (grassEnv + .ofNat i) = init i := by
    intro i inside above apart
    rw [grassEnv_offset room, shows _ (by omega), inEnv _ (by omega), placed]
    exact placeEnv_other inside apart
  constructor
  case whole =>
    have multiple : 16 ∣ blockSize argv := blockSize_multiple argv
    exact sized ▸ multiple
  case top =>
    rw [grassEnv_offset room, Nat.sub_add_cancel room]
  case self =>
    rw [grassEnv_offset room, read32_at shows (by rw [selfOffset]; omega)]
    exact Memory.load32_store32_of_lt pid.toNat_lt
  case argc =>
    rw [grassEnv_offset room, read32_at shows (by rw [argcOffset]; omega),
      Memory.load32_congr fun x above _ => inEnv x (by rw [argcOffset] at above; omega), placed]
    exact placeEnv_argc few
  case vector =>
    rw [grassEnv_offset room, read64_at shows (by rw [argvOffset]; omega),
      Memory.load64_congr fun x above _ => inEnv x (by rw [argvOffset] at above; omega), placed]
    exact placeEnv_argv
  case envp =>
    rw [grassEnv_offset room, read64_at shows (by rw [envpOffset]; omega),
      Memory.load64_congr fun x above _ => inEnv x (by rw [envpOffset] at above; omega), placed]
    exact placeEnv_envp
  case servers =>
    intro i above below
    exact other i (Nat.lt_trans below (by decide)) above (.inl below)
  case files =>
    intro i above below
    exact other i below (Nat.le_trans (by decide) above) (.inr above)
  case pointers =>
    intro i inside
    have ends := @pointer_inside argv i (Nat.le_of_lt inside)
    rw [read64_at shows (by omega), Memory.load64_congr fun x _ below => inArgs x (by omega),
      ← Nat.zero_add (pointerSize * i),
      filled.pointers i inside, stringStart, UInt64.ofNat_add, UInt64.add_assoc]
  case last =>
    have ends := @pointer_inside argv argv.length le_rfl
    rw [read64_at shows (by omega), Memory.load64_congr fun x _ below => inArgs x (by omega),
      ← Nat.zero_add (pointerSize * argv.length)]
    exact filled.last
  case strings =>
    intro i inside k within
    have ends := string_inside inside
    rw [Nat.zero_add]
    unfold window
    rw [UInt64.add_assoc, ← UInt64.ofNat_add, shows _ (by omega), inArgs _ (by omega)]
    exact filled.strings i inside k within
  case first =>
    exact Nat.mul_comm _ _
  case next =>
    intro i inside
    rw [stringStart, stringStart, stringsSize_take_succ inside, Nat.add_assoc]
  case ends =>
    rw [stringStart, List.take_length]
    omega

def catArgs : List Arg := [{ bytes := [99, 97, 116], string := by decide }, { bytes := [45, 110], string := by decide }]

private def longArgs (n : Nat) : List Arg :=
  [{ bytes := List.replicate n 97, string := fun member => absurd (List.eq_of_mem_replicate member) (by decide) }]

private theorem longArgs_size (n : Nat) : blockSize (longArgs n) = (16 + (n + 1) + 128 + 15) / 16 * 16 := by
  have size : stringsSize (longArgs n) = n + 1 := by simp [stringsSize, longArgs, Arg.size]
  unfold blockSize
  rw [size]
  rfl

end Egos.SpawnArgs
