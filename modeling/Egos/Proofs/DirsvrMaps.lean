import Egos.Grass.Dirsvr
import Mathlib.Data.List.Nodup
import Mathlib.Logic.Function.Basic

/-! The directory server over files that behave as arrays of bytes: a directory is a finite
map from names to fids. -/

namespace Egos.Dirsvr
open Library
open Grass (Pid bytesOf)
open Files (wordAt PAGESIZE)

variable {de : DirEntry} {name : List UInt8} {file buf : List UInt8} {fid : Fid} {w : UInt32}

/-- The name of an entry: the bytes before the first zero, if there is one. -/
def DirEntry.cname (de : DirEntry) : List UInt8 := (de.name.take DIR_NAME_SIZE).takeWhile (· ≠ 0)

/-- A name of one byte or more that fits into an entry and holds no zero. -/
structure ValidName (name : List UInt8) : Prop where
  some : name ≠ []
  fits : name.length ≤ DIR_NAME_SIZE
  nonzero : 0 ∉ name

structure Fits (name : List UInt8) : Prop where
  fits : name.length ≤ DIR_NAME_SIZE
  nonzero : 0 ∉ name

theorem ValidName.string (valid : ValidName name) : Fits name := ⟨valid.fits, valid.nonzero⟩

section Strings

theorem strncmp_iff (nonzero : 0 ∉ name) {s : List UInt8} : strncmp s name name.length = true ↔ name <+: s := by
  induction name generalizing s with
  | nil => simp [strncmp]
  | cons c name ih =>
    have first : c ≠ 0 := fun zero => nonzero (zero ▸ List.mem_cons_self)
    have rest : 0 ∉ name := fun member => nonzero (List.mem_cons_of_mem c member)
    rw [List.length_cons, strncmp]
    cases s with
    | nil => simp [first.symm]
    | cons d s =>
      by_cases same : d = c
      · simp [same, first, ih rest]
      · simp [same, Ne.symm same]

theorem nameCmp_iff (string : Fits name) : nameCmp de name name.length = true ↔ de.cname = name := by
  have within : de.cname <+: de.name := (List.takeWhile_prefix _).trans (List.take_prefix _ _)
  unfold nameCmp
  split
  case isTrue apart =>
    refine iff_of_false nofun fun same => apart ?_
    exact congrArg List.length same
  case isFalse size =>
    have size : de.cname.length = name.length := not_not.mp size
    rw [strncmp_iff string.nonzero]
    constructor
    · intro begins
      exact (List.prefix_of_prefix_length_le within begins size.le).eq_of_length size
    · intro same
      exact same ▸ within

theorem headD_eq_zero : de.name.headD 0 = 0 ↔ de.cname = [] := by
  unfold DirEntry.cname
  cases de.name with
  | nil => simp
  | cons c rest =>
    rw [show DIR_NAME_SIZE = 23 + 1 from rfl, List.take_succ_cons, List.takeWhile_cons]
    by_cases zero : c = 0
    · simp [zero]
    · simp [zero]

theorem takeWhile_nonzero (nonzero : 0 ∉ name) (rest : List UInt8) :
    (name ++ rest).takeWhile (· ≠ 0) = name ++ rest.takeWhile (· ≠ 0) := by
  refine List.takeWhile_append_of_pos fun c member => decide_eq_true ?_
  rintro rfl
  exact nonzero member

/-- A string that fits is copied as a whole. -/
theorem strncpy_string (string : Fits name) :
    strncpy DIR_NAME_SIZE name name.length = name ++ List.replicate (DIR_NAME_SIZE - name.length) 0 := by
  have copied : (name.take name.length).takeWhile (· ≠ 0) = name := by
    have same := takeWhile_nonzero string.nonzero []
    rw [List.append_nil, List.takeWhile_nil, List.append_nil] at same
    rw [List.take_length, same]
  unfold strncpy
  rw [copied]

def newEntry (name : List UInt8) (fid : Fid) : DirEntry := { fid, name := strncpy DIR_NAME_SIZE name name.length }

theorem length_newEntry (string : Fits name) : (newEntry name fid).name.length = DIR_NAME_SIZE := by
  have fits := string.fits
  change (strncpy DIR_NAME_SIZE name name.length).length = _
  rw [strncpy_string string, List.length_append, List.length_replicate]
  omega

theorem newEntry_cname (string : Fits name) : (newEntry name fid).cname = name := by
  unfold DirEntry.cname
  rw [List.take_of_length_le (length_newEntry string).le]
  change (strncpy DIR_NAME_SIZE name name.length).takeWhile (· ≠ 0) = name
  rw [strncpy_string string, takeWhile_nonzero string.nonzero]
  simp

theorem length_bytes (string : Fits name) : (newEntry name fid).bytes.length = DIR_ENTRY_SIZE := by
  unfold DirEntry.bytes
  rw [List.length_append, List.length_append, length_newEntry string]
  rfl

theorem decode_bytes (string : Fits name) : DirEntry.decode (newEntry name fid).bytes = newEntry name fid := by
  have shape : (newEntry name fid).bytes = bytesOf fid.server ++ (bytesOf fid.ino ++ (newEntry name fid).name) :=
    List.append_assoc _ _ _
  have server : wordAt (newEntry name fid).bytes 0 = fid.server :=
    shape ▸ Files.wordAt_bytesOf [] fid.server (bytesOf fid.ino ++ (newEntry name fid).name)
  have ino : wordAt (newEntry name fid).bytes 4 = fid.ino :=
    shape ▸ Files.wordAt_bytesOf (bytesOf fid.server) fid.ino (newEntry name fid).name
  have copied : ((newEntry name fid).bytes.drop 8).take DIR_NAME_SIZE = (newEntry name fid).name := by
    have tail : (newEntry name fid).bytes.drop 8 = (newEntry name fid).name := List.drop_left' rfl
    rw [tail, List.take_of_length_le (length_newEntry string).le]
  unfold DirEntry.decode
  rw [server, ino, copied]
  rfl

end Strings

section Entries

variable {des front middle back : List DirEntry} {offset : Nat} {free : Option Nat}

def names (des : List DirEntry) : List (List UInt8) := (des.map DirEntry.cname).filter (· ≠ [])

def entryOf (des : List DirEntry) (name : List UInt8) : Option Fid := (des.find? (·.cname = name)).map DirEntry.fid

theorem find_string (string : Fits name) : des.find? (nameCmp · name name.length) = des.find? (·.cname = name) := by
  refine congrArg (des.find? ·) (funext fun de => ?_)
  exact Bool.eq_iff_iff.mpr ((nameCmp_iff string).trans decide_eq_true_iff.symm)

theorem entryOf_eq_none : entryOf des name = none ↔ ∀ de ∈ des, de.cname ≠ name := by
  unfold entryOf
  rw [Option.map_eq_none_iff, List.find?_eq_none]
  simp only [decide_eq_true_eq, ne_eq]

theorem entryOf_cons : entryOf (de :: des) name = if de.cname = name then some de.fid else entryOf des name := by
  unfold entryOf
  rw [List.find?_cons]
  by_cases same : de.cname = name
  · simp [same]
  · simp [same]

theorem scanEntries_append : scanEntries name (front ++ back) offset free =
    (scanEntries name front offset free).bind (scanEntries name back (offset + front.length * DIR_ENTRY_SIZE)) := by
  induction front generalizing offset free with
  | nil => simp [scanEntries]
  | cons de front ih =>
    have next : offset + DIR_ENTRY_SIZE + front.length * DIR_ENTRY_SIZE =
        offset + (de :: front).length * DIR_ENTRY_SIZE := by
      rw [List.length_cons, Nat.succ_mul]
      omega
    rw [List.cons_append, scanEntries, scanEntries, ← next]
    split_ifs
    · exact ih
    · rfl
    · exact ih

/-- The scan finds the name, or the first free entry. It does not find the empty name. -/
theorem scanEntries_string (string : Fits name) : scanEntries name des offset free =
    if name ≠ [] ∧ entryOf des name ≠ none then none
    else some (free <|> (des.findIdx? (·.cname = [])).map (offset + · * DIR_ENTRY_SIZE)) := by
  induction des generalizing offset free with
  | nil => simp [scanEntries, entryOf]
  | cons de des ih =>
    have shift : ∀ i, offset + DIR_ENTRY_SIZE + i * DIR_ENTRY_SIZE = offset + (i + 1) * DIR_ENTRY_SIZE := by
      intro i
      rw [Nat.succ_mul]
      omega
    rw [scanEntries, entryOf_cons, List.findIdx?_cons]
    by_cases empty : de.cname = []
    · have other : name ≠ [] → de.cname ≠ name := fun some same => some (same.symm.trans empty)
      have known : (name ≠ [] ∧ (if de.cname = name then some de.fid else entryOf des name) ≠ none) ↔
          (name ≠ [] ∧ entryOf des name ≠ none) :=
        and_congr_right fun some => by rw [if_neg (other some)]
      rw [if_pos (headD_eq_zero.mpr empty), ih, if_congr known rfl rfl]
      cases free <;> simp [empty]
    · rw [if_neg (mt headD_eq_zero.mp empty)]
      by_cases same : de.cname = name
      · have found : name ≠ [] ∧ (if de.cname = name then some de.fid else entryOf des name) ≠ none :=
          ⟨same ▸ empty, by rw [if_pos same]; exact Option.some_ne_none _⟩
        rw [if_pos ((nameCmp_iff string).mpr same), if_pos found]
      · rw [if_neg (mt (nameCmp_iff string).mp same), ih, if_neg same]
        simp [empty, Function.comp_def, shift]

theorem scanEntries_eq (valid : ValidName name) : scanEntries name des offset free =
    if entryOf des name = none then some (free <|> (des.findIdx? (·.cname = [])).map (offset + · * DIR_ENTRY_SIZE))
        else none := by
  rw [scanEntries_string valid.string]
  by_cases absent : entryOf des name = none
  · rw [if_pos absent, if_neg fun found => found.2 absent]
  · rw [if_neg absent, if_pos ⟨valid.some, absent⟩]

theorem entryOf_append : entryOf (front ++ back) name = (entryOf front name).or (entryOf back name) := by
  unfold entryOf
  rw [List.find?_append, Option.map_or]

theorem names_append : names (front ++ back) = names front ++ names back := by
  unfold names
  rw [List.map_append, List.filter_append]

theorem names_empty (empty : ∀ de ∈ middle, de.cname = []) : names middle = [] := by
  unfold names
  rw [List.filter_eq_nil_iff]
  intro n member
  obtain ⟨de, known, rfl⟩ := List.mem_map.mp member
  simp [empty de known]

theorem mem_names (some : name ≠ []) : name ∈ names des ↔ entryOf des name ≠ none := by
  rw [ne_eq, entryOf_eq_none]
  unfold names
  rw [List.mem_filter, List.mem_map]
  constructor
  · rintro ⟨⟨de, known, same⟩, -⟩ absent
    exact absent de known same
  · intro present
    push Not at present
    exact ⟨present, decide_eq_true some⟩

structure Inserted (name : List UInt8) (fid : Fid) (before after : List DirEntry) : Prop where
  distinct : (names before).Nodup → (names after).Nodup
  entry : ∀ n, n ≠ [] → entryOf after n = Function.update (entryOf before) name (some fid) n

theorem inserted (fid : Fid) (valid : ValidName name) (empty : ∀ de ∈ middle, de.cname = [])
    (absent : entryOf (front ++ middle ++ back) name = none) :
    Inserted name fid (front ++ middle ++ back) (front ++ newEntry name fid :: back) where
  distinct distinct := by
    have fresh : name ∉ names (front ++ middle ++ back) := fun known => (mem_names valid.some).mp known absent
    rw [names_append, names_append, names_empty empty, List.append_nil, ← names_append] at distinct fresh
    have whole : names (front ++ newEntry name fid :: back) = names front ++ name :: names back := by
      rw [names_append]
      refine congrArg (names front ++ ·) ?_
      unfold names
      rw [List.map_cons, newEntry_cname valid.string]
      exact List.filter_cons_of_pos (decide_eq_true valid.some)
    rw [whole, List.nodup_middle, ← names_append]
    exact List.nodup_cons.mpr ⟨fresh, distinct⟩
  entry n some := by
    have skipped : entryOf middle n = none := by
      refine entryOf_eq_none.mpr fun de member same => some ?_
      exact same.symm.trans (empty de member)
    rw [entryOf_append, entryOf_cons, newEntry_cname valid.string]
    by_cases same : n = name
    · subst same
      rw [entryOf_append, entryOf_append, Option.or_eq_none_iff, Option.or_eq_none_iff] at absent
      rw [Function.update_self, absent.1.1, if_pos rfl, Option.none_or]
      rfl
    · rw [Function.update_of_ne same, if_neg (Ne.symm same), entryOf_append, entryOf_append, skipped, Option.or_none]

end Entries

section Files

variable {dir : Fid} {src : Pid} {free : Option Nat} {fuel j : Nat}

/-- A directory: whole entries, and no name twice. -/
structure WellFormed (file : List UInt8) : Prop where
  whole : DIR_ENTRY_SIZE ∣ file.length
  distinct : (names (entries file)).Nodup

/-- A file server whose files are arrays of bytes, and the replies of the directory server. -/
structure World where
  file : Fid → List UInt8
  sent : List (Pid × DirReply)

variable {world : World}

namespace World

/-- A file that is written after its end is filled up with zeros. -/
def write (world : World) (file : Fid) (offset : Nat) (data : List UInt8) : World :=
  { world with file := Function.update world.file file (splice ((world.file file).rightpad offset 0) offset data) }

def send (world : World) (dst : Pid) (reply : DirReply) : World := { world with sent := world.sent ++ [(dst, reply)] }

end World

def arrays : (c : Call) → Prog World Halt c.Reply
  | .fileRead file offset size => fun world => .done (some (((world.file file).drop offset).take size)) world
  | .fileWrite file offset data => fun world => .done true (world.write file offset data)
  | .send dst reply => fun world => .done () (world.send dst reply)

theorem length_entries : (entries file).length = file.length / DIR_ENTRY_SIZE := by
  unfold entries
  rw [List.length_map, length_records]

theorem page_entries (whole : DIR_ENTRY_SIZE ∣ file.length) :
    entries ((file.drop (j * DIR_ENTRY_SIZE)).take PAGESIZE) = ((entries file).drop j).take 128 := by
  unfold entries
  rw [show PAGESIZE = 128 * DIR_ENTRY_SIZE from rfl, records_page whole (by decide), List.map_take, List.map_drop]

theorem page_length (whole : DIR_ENTRY_SIZE ∣ file.length) :
    ((file.drop (j * DIR_ENTRY_SIZE)).take PAGESIZE).length =
        (((entries file).drop j).take 128).length * DIR_ENTRY_SIZE := by
  obtain ⟨count, total⟩ := whole
  rw [List.length_take, List.length_drop, List.length_take, List.length_drop, length_entries, total,
    Nat.mul_div_cancel_left _ (by decide)]
  unfold PAGESIZE DIR_ENTRY_SIZE
  omega

def answer : Option Fid → DirReply
  | none => { status := .error, fid := .zero }
  | some fid => { status := .ok, fid }

theorem read_run {offset size : Nat} {next : Option (List UInt8) → Server Unit} :
    (call (.fileRead dir offset size) >>= next).run arrays world =
      (next (some (((world.file dir).drop offset).take size))).run arrays world := rfl

/-- The entries of a directory from an index on, as far as one read goes. -/
def page (world : World) (dir : Fid) (j : Nat) : List DirEntry := ((entries (world.file dir)).drop j).take 128

theorem page_offset (whole : DIR_ENTRY_SIZE ∣ (world.file dir).length) :
    j * DIR_ENTRY_SIZE + (((world.file dir).drop (j * DIR_ENTRY_SIZE)).take PAGESIZE).length =
      (j + (page world dir j).length) * DIR_ENTRY_SIZE := by
  rw [page_length whole, Nat.add_mul]
  rfl

theorem page_nil (whole : DIR_ENTRY_SIZE ∣ (world.file dir).length) :
    (((world.file dir).drop (j * DIR_ENTRY_SIZE)).take PAGESIZE).length = 0 ↔ page world dir j = [] := by
  rw [page_length whole, Nat.mul_eq_zero, List.length_eq_zero_iff]
  exact or_iff_left (by decide)

theorem page_whole (whole : DIR_ENTRY_SIZE ∣ (world.file dir).length) :
    (((world.file dir).drop (j * DIR_ENTRY_SIZE)).take PAGESIZE).length % DIR_ENTRY_SIZE = 0 := by
  rw [page_length whole, Nat.mul_mod_left]

theorem lookup_round (whole : DIR_ENTRY_SIZE ∣ (world.file dir).length) :
    (lookupFrom dir src name (fuel + 1) (j * DIR_ENTRY_SIZE)).run arrays world =
      if page world dir j = [] then .done () (world.send src (answer none))
      else
        match (page world dir j).find? (nameCmp · name name.length) with
        | some de => .done () (world.send src (answer (some de.fid)))
        | none => (lookupFrom dir src name fuel ((j + (page world dir j).length) * DIR_ENTRY_SIZE)).run arrays
            world := by
  rw [lookupFrom, read_run]
  dsimp only
  by_cases empty : page world dir j = []
  · rw [if_pos ((page_nil whole).mpr empty), if_pos empty]
    rfl
  · rw [if_neg (mt (page_nil whole).mp empty), if_neg (not_not.mpr (page_whole whole)), if_neg empty,
      page_entries whole,
      page_offset whole]
    change Effect.run arrays (match (page world dir j).find? _ with | some de => _ | none => _) world = _
    cases (page world dir j).find? (nameCmp · name name.length) with
    | none => rfl
    | some de => rfl

theorem drop_page (world : World) (dir : Fid) (j : Nat) : (entries (world.file dir)).drop j =
    page world dir j ++ (entries (world.file dir)).drop (j + (page world dir j).length) := by
  obtain ⟨rest, split⟩ := List.take_prefix 128 ((entries (world.file dir)).drop j)
  have tail : (entries (world.file dir)).drop (j + (page world dir j).length) = rest := calc
    _ = ((entries (world.file dir)).drop j).drop (page world dir j).length := List.drop_drop.symm
    _ = (page world dir j ++ rest).drop (page world dir j).length := congrArg (List.drop _) split.symm
    _ = rest := List.drop_left
  rw [tail]
  exact split.symm

theorem page_nil_iff : page world dir j = [] ↔ (entries (world.file dir)).length ≤ j := by
  unfold page
  rw [List.take_eq_nil_iff, List.drop_eq_nil_iff]
  exact or_iff_right (by decide)

/-- A page that is not empty leaves fewer entries. -/
theorem fewer (some : page world dir j ≠ []) (enough : (entries (world.file dir)).length - j < fuel + 1) :
    (entries (world.file dir)).length - (j + (page world dir j).length) < fuel := by
  have read := List.length_pos_iff.mpr some
  have inside := mt page_nil_iff.mpr some
  omega

/-- A lookup answers for the entries from an index on. -/
theorem lookupFrom_run (src : Pid) (whole : DIR_ENTRY_SIZE ∣ (world.file dir).length) (string : Fits name)
    (enough : (entries (world.file dir)).length - j < fuel) :
    (lookupFrom dir src name fuel (j * DIR_ENTRY_SIZE)).run arrays world =
      .done () (world.send src (answer (entryOf ((entries (world.file dir)).drop j) name))) := by
  induction fuel generalizing j with
  | zero => exact absurd enough (Nat.not_lt_zero _)
  | succ fuel ih =>
    rw [lookup_round whole, find_string string]
    by_cases empty : page world dir j = []
    · rw [if_pos empty, List.drop_eq_nil_of_le (page_nil_iff.mp empty)]
      rfl
    · rw [if_neg empty, drop_page, entryOf_append]
      cases found : (page world dir j).find? (·.cname = name) with
      | none =>
        have absent : entryOf (page world dir j) name = none := by rw [entryOf, found]; rfl
        rw [absent, Option.none_or]
        exact ih (fewer empty enough)
      | some de =>
        have present : entryOf (page world dir j) name = some de.fid := by rw [entryOf, found]; rfl
        rw [present]
        rfl

theorem insert_round (whole : DIR_ENTRY_SIZE ∣ (world.file dir).length) :
    (insertFrom dir src name fid (fuel + 1) (j * DIR_ENTRY_SIZE) free).run arrays world =
      if page world dir j = [] then (addEntry dir src name fid (free.getD (j * DIR_ENTRY_SIZE))).run arrays world
      else
        match scanEntries name (page world dir j) (j * DIR_ENTRY_SIZE) free with
        | none => .done () (world.send src (answer none))
        | some free =>
          (insertFrom dir src name fid fuel ((j + (page world dir j).length) * DIR_ENTRY_SIZE) free).run arrays
              world := by
  rw [insertFrom, read_run]
  dsimp only
  by_cases empty : page world dir j = []
  · rw [if_pos ((page_nil whole).mpr empty), if_pos empty]
  · rw [if_neg (mt (page_nil whole).mp empty), if_neg (not_not.mpr (page_whole whole)), if_neg empty,
      page_entries whole,
      page_offset whole]
    change Effect.run arrays (match scanEntries name (page world dir j) _ _ with | none => _ | some free => _) world = _
    cases scanEntries name (page world dir j) (j * DIR_ENTRY_SIZE) free with
    | none => rfl
    | some free => rfl

/-- An insertion scans the entries from an index on. -/
theorem insertFrom_run (src : Pid) (name : List UInt8) (fid : Fid) (free : Option Nat)
    (whole : DIR_ENTRY_SIZE ∣ (world.file dir).length) (inside : j ≤ (entries (world.file dir)).length)
    (enough : (entries (world.file dir)).length - j < fuel) :
    (insertFrom dir src name fid fuel (j * DIR_ENTRY_SIZE) free).run arrays world =
      match scanEntries name ((entries (world.file dir)).drop j) (j * DIR_ENTRY_SIZE) free with
      | none => .done () (world.send src (answer none))
      | some free => (addEntry dir src name fid (free.getD (world.file dir).length)).run arrays world := by
  induction fuel generalizing j free with
  | zero => exact absurd enough (Nat.not_lt_zero _)
  | succ fuel ih =>
    rw [insert_round whole]
    by_cases empty : page world dir j = []
    · have last : j * DIR_ENTRY_SIZE = (world.file dir).length := by
        rw [inside.antisymm (page_nil_iff.mp empty), length_entries, Nat.div_mul_cancel whole]
      rw [if_pos empty, List.drop_eq_nil_of_le (page_nil_iff.mp empty), scanEntries, last]
    · have further : j + (page world dir j).length ≤ (entries (world.file dir)).length := by
        have same := congrArg List.length (drop_page world dir j)
        rw [List.length_drop, List.length_append] at same
        omega
      rw [if_neg empty, drop_page, scanEntries_append, ← Nat.add_mul]
      cases scanEntries name (page world dir j) (j * DIR_ENTRY_SIZE) free with
      | none => rfl
      | some free => exact ih free further (fewer empty enough)

theorem entries_end (fid : Fid) (whole : DIR_ENTRY_SIZE ∣ file.length) (string : Fits name) :
    entries (splice file file.length (newEntry name fid).bytes) = entries file ++ [newEntry name fid] := by
  rw [splice_end, entries, records_append whole (by decide) (length_bytes string), List.map_append, List.map_singleton,
    decode_bytes string]
  rfl

theorem entries_free {i : Nat} (fid : Fid) (whole : DIR_ENTRY_SIZE ∣ file.length) (string : Fits name)
    (inside : i < (entries file).length) :
    entries (splice file (i * DIR_ENTRY_SIZE) (newEntry name fid).bytes) =
      (entries file).take i ++ newEntry name fid :: (entries file).drop (i + 1) := by
  have slot : i < file.length / DIR_ENTRY_SIZE := length_entries ▸ inside
  rw [entries, records_splice whole (by decide) (length_bytes string) slot, List.map_set, decode_bytes string,
    List.set_eq_take_append_cons_drop]
  exact if_pos inside

/-- The entry is written after the last one. -/
theorem inserted_end (fid : Fid) (whole : DIR_ENTRY_SIZE ∣ file.length) (valid : ValidName name)
    (absent : entryOf (entries file) name = none) :
    Inserted name fid (entries file) (entries (splice file file.length (newEntry name fid).bytes)) := by
  have none : entries file = entries file ++ [] ++ [] := by rw [List.append_nil, List.append_nil]
  rw [none] at absent
  rw [entries_end fid whole valid.string]
  have result := inserted fid valid (fun de member => absurd member List.not_mem_nil) absent
  rwa [← none] at result

/-- The entry is written over a free one. -/
theorem inserted_free {i : Nat} (fid : Fid) (whole : DIR_ENTRY_SIZE ∣ file.length) (valid : ValidName name)
    (absent : entryOf (entries file) name = none) (first : (entries file).findIdx? (·.cname = []) = some i) :
    i < (entries file).length ∧
      Inserted name fid (entries file) (entries (splice file (i * DIR_ENTRY_SIZE) (newEntry name fid).bytes)) := by
  obtain ⟨inside, empty, -⟩ := List.findIdx?_eq_some_iff_getElem.mp first
  refine ⟨inside, ?_⟩
  have before : entries file = (entries file).take i ++ [(entries file)[i]] ++ (entries file).drop (i + 1) := by
    rw [List.take_append_getElem, List.take_append_drop]
  rw [entries_free fid whole valid.string inside]
  rw [before] at absent
  have result := inserted fid valid (fun de member => List.mem_singleton.mp member ▸ of_decide_eq_true empty) absent
  rwa [← before] at result

theorem write_inside {offset : Nat} {data : List UInt8} (inside : offset ≤ (world.file dir).length) :
    (world.write dir offset data).file dir = splice (world.file dir) offset data := by
  refine (Function.update_self _ _ _).trans ?_
  rw [List.rightpad, Nat.sub_eq_zero_of_le inside, List.replicate_zero, List.append_nil]

/-- The new entry is written to a place that holds no name. -/
theorem addEntry_run (src : Pid) (fid : Fid) (formed : WellFormed (world.file dir)) (valid : ValidName name)
    (absent : entryOf (entries (world.file dir)) name = none)
    {free : Option Nat} (first : free = (entries (world.file dir)).findIdx? (·.cname = [])) :
    ∃ after : World, (addEntry dir src name fid ((free.map (· * DIR_ENTRY_SIZE)).getD (world.file dir).length)).run
      arrays world =
        .done () (after.send src (answer (some fid))) ∧
      after.sent = world.sent ∧ (∀ other ≠ dir, after.file other = world.file other) ∧
      WellFormed (after.file dir) ∧ Inserted name fid (entries (world.file dir)) (entries (after.file dir)) := by
  have whole := formed.whole
  refine ⟨world.write dir ((free.map (· * DIR_ENTRY_SIZE)).getD (world.file dir).length) (newEntry name fid).bytes, rfl,
    rfl,
    fun other apart => Function.update_of_ne apart _ _, ?_⟩
  cases free with
  | none =>
    have result := inserted_end fid whole valid absent
    change WellFormed ((world.write dir (world.file dir).length _).file dir) ∧
      Inserted _ _ _ (entries ((world.write dir (world.file dir).length _).file dir))
    rw [write_inside le_rfl]
    refine ⟨⟨?_, result.distinct formed.distinct⟩, result⟩
    rw [splice_end, List.length_append, length_bytes valid.string]
    exact Nat.dvd_add whole (Nat.dvd_refl _)
  | some i =>
    obtain ⟨inside, result⟩ := inserted_free fid whole valid absent first.symm
    have fits : i * DIR_ENTRY_SIZE + DIR_ENTRY_SIZE ≤ (world.file dir).length := by
      rw [← Nat.succ_mul, ← Nat.div_mul_cancel whole, ← length_entries]
      exact Nat.mul_le_mul_right _ inside
    change WellFormed ((world.write dir (i * DIR_ENTRY_SIZE) _).file dir) ∧
      Inserted _ _ _ (entries ((world.write dir (i * DIR_ENTRY_SIZE) _).file dir))
    rw [write_inside (Nat.le_of_add_right_le fits)]
    refine ⟨⟨?_, result.distinct formed.distinct⟩, result⟩
    rw [length_splice_inside (by rw [length_bytes valid.string]; exact fits)]
    exact whole

end Files

section Requests

inductive Operation where
  | lookup
  | insert (fid : Fid)

structure Request where
  src : Pid
  dir : Fid
  name : List UInt8
  op : Operation

/-- The directories as finite maps from names. -/
abbrev Maps := Fid → List UInt8 → Option Fid

namespace Request

def msg (req : Request) : List UInt8 :=
  match req.op with
  | .lookup => dirLookup req.dir req.name
  | .insert fid => dirInsert req.dir req.name fid

def reply (maps : Maps) (req : Request) : DirReply :=
  match req.op with
  | .lookup => answer (maps req.dir req.name)
  | .insert fid => if maps req.dir req.name = none then answer (some fid) else answer none

def update (maps : Maps) (req : Request) : Maps :=
  match req.op with
  | .lookup => maps
  | .insert fid =>
    if maps req.dir req.name = none then Function.update maps req.dir
      (Function.update (maps req.dir) req.name (some fid)) else maps

end Request

def replies (maps : Maps) : List Request → List (Pid × DirReply)
  | [] => []
  | req :: rest => (req.src, req.reply maps) :: replies (req.update maps) rest

def mapsAfter (maps : Maps) : List Request → Maps
  | [] => maps
  | req :: rest => mapsAfter (req.update maps) rest

variable {world : World} {maps : Maps} {req : Request} {fuel : Nat}

def contents (world : World) : Maps := fun dir name => entryOf (entries (world.file dir)) name

/-- The request in a message of the client code. -/
theorem serve_header {code : UInt32} {dir : Fid} (fid : Fid) {name : List UInt8} {src : Pid}
    (fits : name.length ≤ DIR_NAME_SIZE) :
    serve fuel (bytesOf code ++ bytesOf dir.server ++ bytesOf dir.ino ++ bytesOf fid.server ++ bytesOf fid.ino ++
      bytesOf (.ofNat name.length) ++ name) src = handle fuel { type := .ofCode code, dir, fid, name } src := by
  simp only [List.append_assoc]
  let tail := bytesOf (.ofNat name.length) ++ name
  let front := bytesOf code ++ bytesOf dir.server ++ bytesOf dir.ino
  let msg := bytesOf code ++ (bytesOf dir.server ++
    (bytesOf dir.ino ++ (bytesOf fid.server ++ (bytesOf fid.ino ++ tail))))
  have type : wordAt msg 0 = code := Files.wordAt_bytesOf [] code _
  have server : wordAt msg 4 = dir.server := Files.wordAt_bytesOf (bytesOf code) dir.server _
  have ino : wordAt msg 8 = dir.ino := by
    have word := Files.wordAt_bytesOf (bytesOf code ++ bytesOf dir.server) dir.ino
      (bytesOf fid.server ++ (bytesOf fid.ino ++ tail))
    rwa [List.append_assoc] at word
  have fidServer : wordAt msg 12 = fid.server := by
    have word := Files.wordAt_bytesOf front fid.server (bytesOf fid.ino ++ tail)
    rwa [List.append_assoc, List.append_assoc] at word
  have fidIno : wordAt msg 16 = fid.ino := by
    have word := Files.wordAt_bytesOf (front ++ bytesOf fid.server) fid.ino tail
    rwa [List.append_assoc, List.append_assoc, List.append_assoc] at word
  have path : msg.drop requestSize = name := rfl
  have size : msg.length = requestSize + name.length := by
    have four : ∀ word, (bytesOf word).length = 4 := fun _ => rfl
    simp only [msg, tail, List.length_append, four, requestSize]
    omega
  change serve fuel msg src = _
  unfold serve
  have room : msg.length ≤ 8 + MAX_PATH_NAME := by
    rw [size]
    exact (Nat.add_le_add_left fits _).trans (by decide)
  rw [List.take_of_length_le room, if_neg (by omega), type, server, ino, fidServer, fidIno, path]

/-- The messages of the client code are understood. -/
theorem serve_msg (valid : ValidName req.name) : serve fuel req.msg req.src =
    match req.op with
    | .lookup => dirDoLookup fuel req.dir req.src req.name
    | .insert fid => dirDoInsert fuel req.dir req.src req.name fid := by
  unfold Request.msg
  cases req.op with
  | lookup => exact serve_header .zero valid.fits
  | insert fid => exact serve_header fid valid.fits

/-- The files hold the maps, as far as they are directories. -/
def Holds (maps : Maps) (world : World) : Prop :=
  ∀ dir, WellFormed (world.file dir) → ∀ name, ValidName name → contents world dir name = maps dir name

structure Served (req : Request) (world : World) (maps : Maps) (after : World) : Prop where
  sent : after.sent = world.sent ++ [(req.src, req.reply maps)]
  formed : ∀ dir, WellFormed (world.file dir) → WellFormed (after.file dir)
  holds : Holds (req.update maps) after

/-- A request that leaves the files alone. -/
theorem served_send (holds : Holds maps world) {reply : DirReply} (answered : req.reply maps = reply)
    (same : req.update maps = maps) :
    Served req world maps (world.send req.src reply) where
  sent := by rw [answered]; rfl
  formed dir formed := formed
  holds := by rw [same]; exact holds

theorem dirDoInsert_run {dir : Fid} {src : Pid} {name : List UInt8} {fid : Fid} (valid : ValidName name)
    (formed : WellFormed (world.file dir)) (enough : (entries (world.file dir)).length < fuel) :
    (dirDoInsert fuel dir src name fid).run arrays world =
      if contents world dir name = none then
        (addEntry dir src name fid
          ((((entries (world.file dir)).findIdx? (·.cname = [])).map (· * DIR_ENTRY_SIZE)).getD
            (world.file dir).length)).run
          arrays world
      else .done () (world.send src (answer none)) := by
  have start := insertFrom_run src name fid none formed.whole (j := 0) (Nat.zero_le _) enough
  rw [Nat.zero_mul, List.drop_zero, scanEntries_eq valid] at start
  unfold dirDoInsert
  rw [if_neg (Nat.not_lt.mpr valid.fits), start]
  simp only [Nat.zero_add]
  by_cases absent : contents world dir name = none
  · rw [if_pos absent, if_pos (show entryOf (entries (world.file dir)) name = none from absent)]
    rfl
  · rw [if_neg absent, if_neg (show ¬entryOf (entries (world.file dir)) name = none from absent)]

theorem dirDoLookup_run {dir : Fid} {src : Pid} {name : List UInt8} (string : Fits name)
    (whole : DIR_ENTRY_SIZE ∣ (world.file dir).length) (enough : (entries (world.file dir)).length < fuel) :
    (dirDoLookup fuel dir src name).run arrays world =
        .done () (world.send src (answer (contents world dir name))) := by
  have start := lookupFrom_run src whole string (j := 0) enough
  rw [Nat.zero_mul, List.drop_zero] at start
  unfold dirDoLookup
  rw [if_neg (Nat.not_lt.mpr string.fits), start]
  rfl

/-- An insertion of a new name changes one entry of one map. -/
theorem holds_insert {after : World} {dir : Fid} {name : List UInt8} {fid : Fid} (holds : Holds maps world)
    (formed : WellFormed (world.file dir)) (others : ∀ other ≠ dir, after.file other = world.file other)
    (entry : Inserted name fid (entries (world.file dir)) (entries (after.file dir))) :
    Holds (Function.update maps dir (Function.update (maps dir) name (some fid))) after := by
  intro other kept n valid
  by_cases same : other = dir
  · subst same
    rw [Function.update_self]
    refine (entry.entry n valid.some).trans ?_
    by_cases here : n = name
    · rw [here, Function.update_self, Function.update_self]
    · rw [Function.update_of_ne here, Function.update_of_ne here]
      exact holds other formed n valid
  · rw [others other same] at kept
    rw [Function.update_of_ne same, ← holds other kept n valid]
    unfold contents
    rw [others other same]

/-- Every request is answered as the maps answer it. -/
theorem serve_step (holds : Holds maps world) (valid : ValidName req.name) (formed : WellFormed (world.file req.dir)) :
    ∃ after, (∀ fuel > (entries (world.file req.dir)).length,
      (serve fuel req.msg req.src).run arrays world = .done () after) ∧
      Served req world maps after := by
  have known := holds req.dir formed req.name valid
  cases op : req.op with
  | lookup =>
    refine ⟨world.send req.src (answer (contents world req.dir req.name)), fun fuel enough => ?_,
      served_send holds ?_ ?_⟩
    · rw [serve_msg valid, op]
      exact dirDoLookup_run valid.string formed.whole enough
    · rw [Request.reply, op, known]
    · rw [Request.update, op]
  | insert fid =>
    by_cases absent : contents world req.dir req.name = none
    · obtain ⟨middle, runs, sent, others, kept, entry⟩ := addEntry_run req.src fid formed valid absent rfl
      refine ⟨middle.send req.src (answer (some fid)), fun fuel enough => ?_, ?_, fun dir whole => ?_, ?_⟩
      · rw [serve_msg valid, op]
        exact (dirDoInsert_run valid formed enough).trans ((if_pos absent).trans runs)
      · rw [Request.reply, op]
        dsimp only
        rw [if_pos (known ▸ absent), ← sent]
        rfl
      · by_cases same : dir = req.dir
        · exact same ▸ kept
        · exact others dir same ▸ whole
      · rw [Request.update, op]
        dsimp only
        rw [if_pos (known ▸ absent)]
        exact holds_insert holds formed others entry
    · refine ⟨world.send req.src (answer none), fun fuel enough => ?_, served_send holds ?_ ?_⟩
      · rw [serve_msg valid, op]
        exact (dirDoInsert_run valid formed enough).trans (if_neg absent)
      · rw [Request.reply, op]
        exact if_neg (known ▸ absent)
      · rw [Request.update, op]
        exact if_neg (known ▸ absent)

def messages (requests : List Request) : List (List UInt8 × Pid) := requests.map fun req => (req.msg, req.src)

theorem serve_run {requests : List Request} (holds : Holds maps world) (valid : ∀ req ∈ requests, ValidName req.name)
    (formed : ∀ req ∈ requests, WellFormed (world.file req.dir)) :
    ∃ after pages, (∀ fuel ≥ pages, (dirProc fuel (messages requests)).run arrays world = .done () after) ∧
      after.sent = world.sent ++ replies maps requests ∧
        (∀ dir, WellFormed (world.file dir) → WellFormed (after.file dir)) ∧
      Holds (mapsAfter maps requests) after := by
  induction requests generalizing world maps with
  | nil => exact ⟨world, 0, fun fuel _ => rfl, (List.append_nil _).symm, fun dir formed => formed, holds⟩
  | cons req rest ih =>
    have here := formed req List.mem_cons_self
    obtain ⟨middle, first, served⟩ := serve_step holds (valid req List.mem_cons_self) here
    obtain ⟨after, pages, next, sent, kept, last⟩ := ih served.holds
      (fun other member => valid other (List.mem_cons_of_mem _ member))
      fun other member => served.formed _ (formed other (List.mem_cons_of_mem _ member))
    refine ⟨after, max pages ((entries (world.file req.dir)).length + 1), fun fuel enough => ?_, ?_,
      fun dir formed => kept dir (served.formed dir formed), last⟩
    · have begun := first fuel (le_of_max_le_right enough)
      change (serve fuel req.msg req.src >>= fun _ => dirProc fuel (messages rest)).run arrays world = _
      rw [Effect.run_bind, Prog.bind_done begun]
      exact next fuel (le_of_max_le_left enough)
    · rw [sent, served.sent, List.append_assoc]
      rfl

/-- The directory server answers every sequence of requests as finite maps do, and its
directories hold these maps. -/
theorem directories_are_maps (world : World) (requests : List Request) (valid : ∀ req ∈ requests, ValidName req.name)
    (formed : ∀ req ∈ requests, WellFormed (world.file req.dir)) :
    ∃ after pages, (∀ fuel ≥ pages, (dirProc fuel (messages requests)).run arrays world = .done () after) ∧
      after.sent = world.sent ++ replies (contents world) requests ∧
      ∀ dir, WellFormed (world.file dir) → WellFormed (after.file dir) ∧
        ∀ name, ValidName name → contents after dir name = mapsAfter (contents world) requests dir name := by
  have start : Holds (contents world) world := fun dir formed name valid => rfl
  obtain ⟨after, pages, runs, sent, kept, holds⟩ := serve_run start valid formed
  exact ⟨after, pages, runs, sent, fun dir formed => ⟨kept dir formed, holds dir (kept dir formed)⟩⟩

def insertedName : List Request :=
  [{ src := 7, dir := { server := 3, ino := 1 }, name := [97], op := .insert { server := 3, ino := 2 } },
    { src := 8, dir := { server := 3, ino := 1 }, name := [97], op := .lookup }]

theorem directories_are_maps_inserted :
    ∃ after pages, (∀ fuel ≥ pages,
        (dirProc fuel (messages insertedName)).run arrays { file := fun _ => [], sent := [] } = .done () after) ∧
      after.sent = [(7, answer (some { server := 3, ino := 2 })), (8, answer (some { server := 3, ino := 2 }))] := by
  have empty : WellFormed [] := ⟨Nat.dvd_zero _, List.nodup_nil⟩
  have valid : ∀ req ∈ insertedName, ValidName req.name := by
    intro req member
    have short : req.name = [97] := by
      rcases List.mem_cons.mp member with rfl | member
      · rfl
      · exact List.mem_singleton.mp member ▸ rfl
    rw [short]
    exact ⟨by decide, by decide, by decide⟩
  obtain ⟨after, pages, runs, sent, -⟩ :=
    directories_are_maps { file := fun _ => [], sent := [] } insertedName valid fun _ _ => empty
  exact ⟨after, pages, runs, sent⟩

end Requests
end Egos.Dirsvr
