import Egos.Proofs.PwdsvrSplit
import Egos.Library.Ensures
import Mathlib.Data.List.TakeWhile

/-! What a request of the password server leaves of the password file. -/

namespace Egos.Pwdsvr
open Library Library.Prog Strings

def colon : UInt8 := chr ':'

def entry (user hash uid : List UInt8) : List UInt8 := user ++ colon :: (hash ++ colon :: uid)

section
variable (sha256 : List UInt8 → Nat → UInt8) (uname opwd : List UInt8)

/-- A line is the same, or it is a line with the user name and the password, and the field
with the hash is another one. -/
inductive Kept : List UInt8 → List UInt8 → Prop where
  | same {line} : Kept line line
  | changed {user hash other uid} : colon ∉ user → colon ∉ hash → user = uname →
      pwdcmp sha256 hash opwd = true → colon ∉ other → newline ∉ other →
      Kept (entry user hash uid) (entry user other uid)

/-- The files have the same lines in the same order, but for the lines that may change. -/
inductive Rewritten : List UInt8 → List UInt8 → Prop where
  | last {line line'} : newline ∉ line → Kept sha256 uname opwd line line' → Rewritten line line'
  | line {line line' rest rest'} : newline ∉ line → Kept sha256 uname opwd line line' → Rewritten rest rest' →
      Rewritten (line ++ newline :: rest) (line' ++ newline :: rest')

/-- The server answers that it has changed the password, and the file is rewritten; or it does
not, and the file is as it was. -/
def Safe (before : List UInt8) : Outcome Server Halt Status → Prop
  | .done .ok after => Rewritten sha256 uname opwd before after.file
  | .done .error after => after.file = before
  | .halted _ after => after.file = before

def copied (piece : List UInt8) : List UInt8 := str (terminate piece) 0

def Hit (piece : List UInt8) : Bool := hit sha256 uname opwd (parse F_NUMBER_FIELDS (copied piece))

/-- How many bytes are put into the memory channel for a line: a new hash has 32. -/
def copySize (piece : List UInt8) : Nat :=
  if Hit sha256 uname opwd piece then (copied piece).length -
    ((parse F_NUMBER_FIELDS (copied piece)).getD 1 []).length + 32 + 1
  else (copied piece).length + 1

end

/-- A line that is read whole, and that is a string. -/
def Whole (piece : List UInt8) : Prop := ∃ line, piece = line ++ [newline] ∧ newline ∉ line ∧ 0 ∉ line

/-! Programs that put bytes into the memory channel. -/

/-- So many bytes are put into the memory channel, or there is no memory for them. The file stays as it is. -/
def Emits {α : Type} (answers : Answers) (program : Action α) (s : Server) (n : Nat)
    (post : α → List UInt8 → Prop) : Prop :=
  (answers.room < s.mc.length + n ∧ ∃ after, program s = .halted .noMemory after ∧ after.file = s.file) ∨
    (s.mc.length + n ≤ answers.room ∧ ∃ value after out, program s = .done value after ∧ after.file = s.file ∧
      after.mc = s.mc ++ out ∧
      out.length = n ∧ post value out)

section Emits
variable {α β : Type} {answers : Answers} {s : Server} {n k : Nat}

theorem Emits.weaken {program : Action α} {post other : α → List UInt8 → Prop} (emits : Emits answers program s n post)
    (implies : ∀ value out, post value out → other value out) : Emits answers program s n other := by
  rcases emits with halts | ⟨room, value, after, out, ran, file, mc, length, holds⟩
  · exact .inl halts
  · exact .inr ⟨room, value, after, out, ran, file, mc, length, implies value out holds⟩

theorem Emits.bind {first : Action α} {next : α → Action β} {middle : α → List UInt8 → Prop}
    {post : β → List UInt8 → Prop}
    (left : Emits answers first s n middle)
    (right : ∀ value out after, middle value out → after.mc.length ≤ answers.room →
    Emits answers (next value) after k fun result more => post result (out ++ more)) :
    Emits answers (first >>= next) s (n + k) post := by
  rcases left with ⟨full, after, ran, file⟩ | ⟨room, value, between, out, ran, file, mc, length, holds⟩
  · exact .inl ⟨by omega, after, bind_halted ran, file⟩
  · have same : between.mc.length = s.mc.length + n := by rw [mc, List.length_append, length]
    rcases right value out between holds (by omega) with ⟨full, after, ran', file'⟩ | ⟨room', result, after,
      more, ran', file', mc', length', holds'⟩
    · exact .inl ⟨by omega, after, (bind_done ran).trans ran', file'.trans file⟩
    · refine .inr ⟨by omega, result, after, out ++ more, (bind_done ran).trans ran', file'.trans file, ?_, ?_, holds'⟩
      · rw [mc', mc, List.append_assoc]
      · rw [List.length_append, length, length']

theorem emits_pure {value : α} {post : α → List UInt8 → Prop} (room : s.mc.length ≤ answers.room)
    (holds : post value []) :
    Emits answers (pure value) s 0 post :=
  .inr ⟨room, value, s, [], rfl, rfl, (List.append_nil _).symm, rfl, holds⟩

theorem mcPut_emits (bytes : List UInt8) :
    Emits answers (mcPut answers bytes) s bytes.length fun _ out => out = bytes := by
  unfold mcPut
  by_cases full : answers.room < s.mc.length + bytes.length
  · refine .inl ⟨full, s, ?_, rfl⟩
    rw [bind_done (get_run _), if_pos full]
    rfl
  · refine .inr ⟨Nat.le_of_not_lt full, (), { s with mc := s.mc ++ bytes }, bytes, ?_, rfl, rfl, rfl, rfl⟩
    rw [bind_done (get_run _), if_neg full]
    rfl

end Emits

/-! One line. -/

section Line
variable {sha256 : List UInt8 → Nat → UInt8} {answers : Answers} {uname opwd npwd : List UInt8} {s : Server}

theorem passwordChar_mem (byte : UInt8) : passwordChar byte ∈ allchars := by
  have inside : (byte &&& 63).toNat < allchars.length := by
    have bound : (byte &&& 63).toNat ≤ 63 := by
      rw [UInt8.toNat_and]
      exact Nat.and_le_right
    have length : allchars.length = 64 := by decide
    omega
  unfold passwordChar
  rw [List.getD_eq_getElem?_getD, List.getElem?_eq_getElem inside]
  exact List.getElem_mem inside

theorem digest_chars (salt pwd : List UInt8) : ∀ c ∈ digest sha256 salt pwd, c ∈ allchars := by
  intro c member
  obtain ⟨i, -, rfl⟩ := List.mem_map.mp member
  exact passwordChar_mem _

theorem digest_length (salt pwd : List UInt8) : (digest sha256 salt pwd).length = 28 := by
  unfold digest
  rw [List.length_map, List.length_range]

def FromChars (out : List UInt8) : Prop := ∀ c ∈ out, c ∈ allchars

theorem FromChars.append {first second : List UInt8} (left : FromChars first) (right : FromChars second) :
    FromChars (first ++ second) :=
  fun c member => (List.mem_append.mp member).elim (left c) (right c)

theorem Emits.sized {α : Type} {program : Action α} {post : α → List UInt8 → Prop} {n k : Nat}
    (emits : Emits answers program s n post) (same : n = k) :
    Emits answers program s k post := same ▸ emits

theorem rand_emits (room : s.mc.length ≤ answers.room) : Emits answers rand s 0 fun _ out => out = [] :=
  .inr ⟨room, _, { s with randstate := s.randstate * 214013 + 2531011 }, [], rfl, rfl,
    (List.append_nil _).symm, rfl, rfl⟩

theorem genSalt_emits (count : Nat) (room : s.mc.length ≤ answers.room) :
    Emits answers (genSalt answers count) s count fun _ out => FromChars out := by
  induction count generalizing s with
  | zero => exact emits_pure room fun _ member => absurd member List.not_mem_nil
  | succ count ih =>
    unfold genSalt
    refine Emits.sized (Emits.bind (rand_emits room) fun r none after first room => ?_) (Nat.zero_add (count + 1))
    subst first
    refine Emits.sized (Emits.bind (mcPut_emits [passwordChar r.toUInt8]) fun _ char after same room => ?_)
      (Nat.add_comm 1 count)
    subst same
    refine Emits.bind (ih room) fun rest chars after made room => emits_pure room ?_
    rw [List.nil_append, List.append_nil]
    exact FromChars.append (fun c member => List.mem_singleton.mp member ▸ passwordChar_mem _) made

/-- A new hash is 32 characters. -/
theorem genPwd_emits (room : s.mc.length ≤ answers.room) :
    Emits answers (genPwd sha256 answers npwd) s 32 fun _ out => FromChars out := by
  unfold genPwd
  refine Emits.sized (Emits.bind (genSalt_emits 4 room) fun salt out after made room => ?_) (rfl : 4 + 28 = 32)
  refine ((mcPut_emits (digest sha256 salt npwd)).sized (digest_length salt npwd)).weaken fun _ more same => ?_
  subst same
  exact made.append (digest_chars salt npwd)

theorem no_colon {field : List UInt8} (plain : colon ∉ field) : ∀ c ∈ field, decide (c ≠ chr ':') = true := by
  intro c member
  refine decide_eq_true fun same => plain ?_
  unfold colon
  rwa [← same]

theorem parse_colon {count : Nat} {field rest : List UInt8} (plain : colon ∉ field) :
    parse (count + 1) (field ++ colon :: rest) = field :: parse count rest := by
  have passes := no_colon plain
  have stops : decide (colon ≠ chr ':') = false := rfl
  rw [parse, List.dropWhile_append_of_pos passes, List.takeWhile_append_of_pos passes,
    List.dropWhile_cons_of_neg (by simp [stops]),
    List.takeWhile_cons_of_neg (by simp [stops]), List.append_nil]

theorem parse_last {count : Nat} {field : List UInt8} (plain : colon ∉ field) : parse (count + 1) field = [field] := by
  have passes := no_colon plain
  rw [parse, List.dropWhile_eq_nil_iff.mpr passes]

/-- Three fields are found where there are two colons. -/
theorem parse_three {line user hash last : List UInt8} (found : parse F_NUMBER_FIELDS line = [user, hash, last]) :
    ∃ uid, line = entry user hash uid ∧ colon ∉ user ∧ colon ∉ hash := by
  unfold F_NUMBER_FIELDS at found
  by_cases first : colon ∈ line
  · obtain ⟨field, rest, rfl, plain⟩ := List.eq_append_cons_of_mem first
    rw [parse_colon plain] at found
    by_cases second : colon ∈ rest
    · obtain ⟨next, uid, rfl, plain'⟩ := List.eq_append_cons_of_mem second
      rw [parse_colon plain'] at found
      obtain ⟨rfl, others⟩ := List.cons.inj found
      obtain ⟨rfl, -⟩ := List.cons.inj others
      exact ⟨uid, rfl, plain, plain'⟩
    · rw [parse_last second] at found
      cases found
  · rw [parse_last first] at found
    cases found

/-- What is copied for a line: the string, or an entry with another hash. -/
inductive Copy (sha256 : List UInt8 → Nat → UInt8) (uname opwd : List UInt8) (piece : List UInt8) :
    List UInt8 → Prop where
  | plain : Hit sha256 uname opwd piece = false → Copy sha256 uname opwd piece (copied piece)
  | updated {user hash uid other} : Hit sha256 uname opwd piece = true → copied piece = entry user hash uid →
      colon ∉ user → colon ∉ hash →
      user = uname → pwdcmp sha256 hash opwd = true → FromChars other →
        Copy sha256 uname opwd piece (entry user other uid)

/-- The fields of a line that is hit. -/
theorem hit_fields {piece : List UInt8} (hits : Hit sha256 uname opwd piece = true) : ∃ user hash last uid,
    parse F_NUMBER_FIELDS (copied piece) = [user, hash, last] ∧ copied piece = entry user hash uid ∧
      colon ∉ user ∧ colon ∉ hash ∧
      user = uname ∧ pwdcmp sha256 hash opwd = true := by
  unfold Hit hit at hits
  split at hits
  case h_1 user hash last found =>
    obtain ⟨uid, whole, user_plain, hash_plain⟩ := parse_three found
    obtain ⟨named, same⟩ := Bool.and_eq_true_iff.mp hits
    exact ⟨user, hash, last, uid, found, whole, user_plain, hash_plain, of_decide_eq_true named, same⟩
  case h_2 => cases hits

theorem entry_length (user hash uid : List UInt8) :
    (entry user hash uid).length = user.length + 1 + hash.length + 1 + uid.length := by
  simp only [entry, List.length_append, List.length_cons]
  omega

theorem entry_drop (user hash uid : List UInt8) :
    (entry user hash uid).drop (user.length + 1 + hash.length + 1) = uid := by
  have front : entry user hash uid = (user ++ [colon] ++ hash ++ [colon]) ++ uid := by
    simp [entry]
  have length : (user ++ [colon] ++ hash ++ [colon]).length = user.length + 1 + hash.length + 1 := by
    simp only [List.length_append, List.length_singleton]
  rw [front, ← length]
  exact List.drop_left

theorem copyLine_emits (piece : List UInt8) :
    Emits answers (copyLine sha256 answers uname opwd npwd piece) s (copySize sha256 uname opwd piece)
        fun updated out =>
      updated = Hit sha256 uname opwd piece ∧ ∃ line, out = line ++ [newline] ∧ Copy sha256 uname opwd piece line := by
  have name : str (terminate piece) 0 = copied piece := rfl
  unfold copyLine copySize
  simp only [name]
  cases hits : Hit sha256 uname opwd piece with
  | false =>
    have misses : ¬ hit sha256 uname opwd (parse F_NUMBER_FIELDS (copied piece)) = true := by
      unfold Hit at hits
      rw [hits]
      exact Bool.false_ne_true
    rw [if_neg misses, if_neg Bool.false_ne_true]
    refine Emits.bind (mcPut_emits (copied piece)) fun _ out after same room => ?_
    subst same
    refine Emits.bind (k := 0) (n := 1) (mcPut_emits [newline]) fun _ ending after same room =>
      emits_pure room ⟨rfl, copied piece, ?_, .plain hits⟩
    rw [List.append_nil, same]
  | true =>
    obtain ⟨user, hash, last, uid, found, whole, user_plain, hash_plain, named, same⟩ := hit_fields hits
    have taken : hit sha256 uname opwd (parse F_NUMBER_FIELDS (copied piece)) = true := hits
    have rest : (copied piece).drop (user.length + 1 + hash.length + 1) = uid := whole ▸ entry_drop user hash uid
    have length : (copied piece).length = user.length + 1 + hash.length + 1 + uid.length :=
      whole ▸ entry_length user hash uid
    rw [if_pos taken, if_pos rfl]
    simp only [found, List.getD_cons_zero, List.getD_cons_succ, rest]
    refine Emits.sized (Emits.bind (mcPut_emits user) fun _ out after first room => ?_)
      (show user.length + (1 + (32 + (1 + (uid.length + (1 + 0))))) = _ by omega)
    refine Emits.bind (mcPut_emits [chr ':']) fun _ out after second room => ?_
    refine Emits.bind (genPwd_emits room) fun _ other after made room => ?_
    refine Emits.bind (mcPut_emits [chr ':']) fun _ out after third room => ?_
    refine Emits.bind (mcPut_emits uid) fun _ out after fourth room => ?_
    refine Emits.bind (mcPut_emits [newline]) fun _ out after fifth room =>
      emits_pure room ⟨rfl, entry user other uid, ?_, ?_⟩
    · rw [first, second, third, fourth, fifth]
      simp [entry, colon]
    · exact .updated hits whole user_plain hash_plain named same made

def output (lines : List (List UInt8)) : List UInt8 := (lines.map fun line => line ++ [newline]).flatten

theorem copyLines_emits (pieces : List (List UInt8)) (success : Bool) (room : s.mc.length ≤ answers.room) :
    Emits answers (copyLines sha256 answers uname opwd npwd pieces success) s
        (pieces.map (copySize sha256 uname opwd)).sum fun value out =>
      value = (success || pieces.any (Hit sha256 uname opwd)) ∧ ∃ lines, out = output lines ∧
          List.Forall₂ (Copy sha256 uname opwd) pieces lines := by
  induction pieces generalizing s success with
  | nil => exact emits_pure room ⟨(Bool.or_false _).symm, [], rfl, .nil⟩
  | cons piece pieces ih =>
    rw [List.map_cons, List.sum_cons]
    refine Emits.bind (copyLine_emits piece) fun updated out after copies room => ?_
    obtain ⟨rfl, line, rfl, copy⟩ := copies
    refine (ih _ room).weaken fun value more rest => ?_
    obtain ⟨same, lines, rfl, others⟩ := rest
    refine ⟨?_, line :: lines, rfl, .cons copy others⟩
    rw [same, List.any_cons, Bool.or_assoc]

end Line

/-! Newlines and zeros. -/

section Bytes
variable {sha256 : List UInt8 → Nat → UInt8} {uname opwd piece line line' : List UInt8}

theorem fromChars_plain {out : List UInt8} (made : FromChars out) : colon ∉ out ∧ newline ∉ out ∧ 0 ∉ out :=
  ⟨fun member => absurd (made _ member) (by decide), fun member => absurd (made _ member) (by decide),
    fun member => absurd (made _ member) (by decide)⟩

theorem mem_entry {c : UInt8} {user hash uid : List UInt8} :
    c ∈ entry user hash uid ↔ c ∈ user ∨ c = colon ∨ c ∈ hash ∨ c ∈ uid := by
  simp only [entry, List.mem_append, List.mem_cons]
  tauto

theorem copied_plain (piece : List UInt8) : newline ∉ copied piece ∧ 0 ∉ copied piece := by
  constructor
  · intro member
    have inside : newline ∈ terminate piece := List.mem_of_mem_drop (List.takeWhile_subset _ member)
    simpa using List.mem_takeWhile_imp inside
  · intro member
    simpa using List.mem_takeWhile_imp member

/-- What is copied for a line is a string without a newline. -/
theorem Copy.plain_line (copy : Copy sha256 uname opwd piece line) : newline ∉ line ∧ 0 ∉ line := by
  obtain ⟨noNewline, noZero⟩ := copied_plain piece
  cases copy with
  | plain => exact ⟨noNewline, noZero⟩
  | updated hits whole user_plain hash_plain named same made =>
    rw [whole, mem_entry] at noNewline noZero
    obtain ⟨-, newlines, zeros⟩ := fromChars_plain made
    constructor
    · rw [mem_entry]
      tauto
    · rw [mem_entry]
      tauto

theorem Kept.plain (kept : Kept sha256 uname opwd line line') (plain : newline ∉ line) : newline ∉ line' := by
  cases kept with
  | same => exact plain
  | changed _ _ _ _ _ newlines =>
    rw [mem_entry] at plain ⊢
    tauto

theorem Rewritten.count {before after : List UInt8} (rewritten : Rewritten sha256 uname opwd before after) :
    after.count newline = before.count newline := by
  induction rewritten with
  | last plain kept => rw [List.count_eq_zero_of_not_mem plain, List.count_eq_zero_of_not_mem (kept.plain plain)]
  | line plain kept _ ih =>
    rw [List.count_append, List.count_append, List.count_cons_self, List.count_cons_self, ih,
      List.count_eq_zero_of_not_mem plain,
      List.count_eq_zero_of_not_mem (kept.plain plain)]

/-- Where a byte is for the first time. -/
theorem first_split {c : UInt8} {a b x y : List UInt8} (same : a ++ c :: x = b ++ c :: y) (left : c ∉ a)
    (right : c ∉ b) : a = b ∧ x = y := by
  induction a generalizing b with
  | nil =>
    cases b with
    | nil => exact ⟨rfl, (List.cons.inj same).2⟩
    | cons d b => exact absurd ((List.cons.inj same).1 ▸ List.mem_cons_self) right
  | cons e a ih =>
    cases b with
    | nil => exact absurd ((List.cons.inj same).1 ▸ List.mem_cons_self) left
    | cons d b =>
      obtain ⟨rfl, rest⟩ := List.cons.inj same
      obtain ⟨rfl, rfl⟩ := ih rest (fun member => left (List.mem_cons_of_mem _ member))
        (fun member => right (List.mem_cons_of_mem _ member))
      exact ⟨rfl, rfl⟩

/-- The file that is rewritten to one that begins with a line. -/
theorem Rewritten.split {file more : List UInt8}
    (rewritten : Rewritten sha256 uname opwd file (line ++ newline :: more)) (plain : newline ∉ line) :
    ∃ old rest, file = old ++ newline :: rest ∧ newline ∉ old ∧ Kept sha256 uname opwd old line ∧
        Rewritten sha256 uname opwd rest more := by
  generalize after : line ++ newline :: more = file' at rewritten
  cases rewritten with
  | last none kept => exact absurd (after ▸ List.mem_append_right _ List.mem_cons_self) (kept.plain none)
  | line none kept later =>
    obtain ⟨rfl, rfl⟩ := first_split after plain (kept.plain none)
    exact ⟨_, _, rfl, none, kept, later⟩

theorem output_cons (line : List UInt8) (lines : List (List UInt8)) :
    output (line :: lines) = line ++ newline :: output lines := by
  simp [output]

theorem output_count {lines : List (List UInt8)} (plain : ∀ line ∈ lines, newline ∉ line) :
    (output lines).count newline = lines.length := by
  induction lines with
  | nil => rfl
  | cons line lines ih =>
    obtain ⟨first, others⟩ := List.forall_mem_cons.mp plain
    rw [output_cons, List.count_append, List.count_eq_zero_of_not_mem first, List.count_cons_self, ih others,
      List.length_cons, Nat.zero_add]

/-- A piece has one newline, at its end, or none. -/
theorem piece_newline {piece : List UInt8} (whole : Stdio.Piece piece) :
    newline ∉ piece ∨ ∃ line, piece = line ++ [newline] ∧ newline ∉ line := by
  obtain ⟨some, inner⟩ := whole
  have apart := List.dropLast_append_getLast some
  generalize piece.dropLast = line at apart inner
  generalize piece.getLast some = c at apart
  subst apart
  by_cases last : c = newline
  · subst last
    exact .inr ⟨line, rfl, inner⟩
  · refine .inl fun member => ?_
    rcases List.mem_append.mp member with inside | ending
    · exact inner inside
    · exact last (List.mem_singleton.mp ending).symm

theorem newline_le {pieces : List (List UInt8)} (each : ∀ piece ∈ pieces, Stdio.Piece piece) :
    pieces.flatten.count newline ≤ pieces.length := by
  induction pieces with
  | nil => exact Nat.le_refl 0
  | cons piece pieces ih =>
    obtain ⟨first, others⟩ := List.forall_mem_cons.mp each
    have later := ih others
    rw [List.flatten_cons, List.count_append, List.length_cons]
    rcases piece_newline first with none | ⟨line, rfl, plain⟩
    · rw [List.count_eq_zero_of_not_mem none]
      omega
    · rw [List.count_append, List.count_eq_zero_of_not_mem plain, List.count_singleton_self]
      omega

theorem copied_line (plain : newline ∉ line) : copied (line ++ [newline]) = line.takeWhile (· ≠ 0) := by
  have passes : ∀ c ∈ line, decide (c ≠ newline) = true := fun c member => decide_eq_true
    fun same => plain (same ▸ member)
  unfold copied terminate str
  rw [List.takeWhile_append_of_pos passes, List.takeWhile_cons_of_neg (by simp), List.append_nil]
  rfl

theorem copied_string (plain : newline ∉ line) (string : 0 ∉ line) : copied (line ++ [newline]) = line := by
  rw [copied_line plain]
  exact List.takeWhile_eq_self_iff.mpr fun c member => decide_eq_true fun same => string (same ▸ member)

theorem copied_begins (piece : List UInt8) : copied piece <+: piece :=
  (List.takeWhile_prefix _).trans (List.takeWhile_prefix _)

theorem entry_inj {user hash uid user' hash' uid' : List UInt8} (plain : colon ∉ user ∧ colon ∉ hash)
    (plain' : colon ∉ user' ∧ colon ∉ hash')
    (same : entry user hash uid = entry user' hash' uid') : user = user' ∧ hash = hash' ∧ uid = uid' := by
  obtain ⟨users, rest⟩ := first_split same plain.1 plain'.1
  exact ⟨users, first_split rest plain.2 plain'.2⟩

theorem entry_begins {user hash uid user' hash' uid' : List UInt8} (plain : colon ∉ user ∧ colon ∉ hash)
    (plain' : colon ∉ user' ∧ colon ∉ hash')
    (begins : entry user hash uid <+: entry user' hash' uid') : user = user' ∧ hash = hash' ∧ uid <+: uid' := by
  obtain ⟨rest, whole⟩ := begins
  have apart : entry user hash (uid ++ rest) = entry user' hash' uid' := by
    rw [← whole]
    simp [entry]
  obtain ⟨users, hashes, tail⟩ := entry_inj plain plain' apart
  exact ⟨users, hashes, rest, tail⟩

/-- What is copied of a line, when it begins the old one, is the whole line. -/
theorem Copy.old {old : List UInt8} (copy : Copy sha256 uname opwd piece line)
    (kept : Kept sha256 uname opwd old line) (begins : copied piece <+: old) :
    old = copied piece := by
  cases copy with
  | plain =>
    generalize same : copied piece = line at kept begins
    cases kept with
    | same => rfl
    | changed user_plain hash_plain _ _ colons _ =>
      obtain ⟨-, rfl, -⟩ := entry_begins ⟨user_plain, colons⟩ ⟨user_plain, hash_plain⟩ begins
      rfl
  | @updated user hash uid other _ whole user_plain hash_plain _ _ made =>
    obtain ⟨colons, -, -⟩ := fromChars_plain made
    rw [whole] at begins ⊢
    generalize same : entry user other uid = line at kept
    cases kept with
    | same =>
      subst same
      obtain ⟨-, rfl, -⟩ := entry_begins ⟨user_plain, hash_plain⟩ ⟨user_plain, colons⟩ begins
      rfl
    | changed user_plain' hash_plain' _ _ colons' _ =>
      obtain ⟨rfl, rfl, rfl⟩ := entry_inj ⟨user_plain, colons⟩ ⟨user_plain', colons'⟩ same
      obtain ⟨-, rfl, -⟩ := entry_begins ⟨user_plain, hash_plain⟩ ⟨user_plain', hash_plain'⟩ begins
      rfl

/-- The old line is what is copied, or has another hash. -/
theorem Copy.kept (copy : Copy sha256 uname opwd piece line) : Kept sha256 uname opwd (copied piece) line := by
  cases copy with
  | plain => exact .same
  | updated hits whole user_plain hash_plain named matched made =>
    obtain ⟨colons, newlines, -⟩ := fromChars_plain made
    rw [whole]
    exact .changed user_plain hash_plain named matched colons newlines

/-- The first line is the end of a line, which has been read without its newline: it is empty, and
so are the ones behind it. -/
theorem blank_lines {pieces lines : List (List UInt8)} {file unread tail : List UInt8}
    (each : ∀ piece ∈ pieces, Stdio.Piece piece)
    (copies : List.Forall₂ (Copy sha256 uname opwd) pieces lines) (read : newline :: file = pieces.flatten ++ unread)
    (rewritten : Rewritten sha256 uname opwd file (output lines ++ tail)) :
    ∃ rest, file = output (pieces.map copied) ++ rest ∧ Rewritten sha256 uname opwd rest tail := by
  induction copies generalizing file with
  | nil => exact ⟨file, rfl, rewritten⟩
  | @cons piece line pieces lines copy _ ih =>
    obtain ⟨first, others⟩ := List.forall_mem_cons.mp each
    have blank : piece = [newline] := by
      obtain ⟨some, inner⟩ := first
      obtain ⟨c, more, rfl⟩ := List.exists_cons_of_ne_nil some
      obtain ⟨rfl, -⟩ := List.cons.inj (show newline :: file =
        c :: (more ++ pieces.flatten ++ unread) by simpa using read)
      cases more with
      | nil => rfl
      | cons d more => exact absurd List.mem_cons_self inner
    subst blank
    rw [output_cons, List.append_assoc, List.cons_append] at rewritten
    obtain ⟨old, rest, rfl, -, kept, later⟩ := rewritten.split copy.plain_line.1
    have empty : old = [] := copy.old kept List.nil_prefix
    subst empty
    obtain ⟨last, rfl, still⟩ := ih others (by simpa using read) later
    exact ⟨last, by rw [List.map_cons, output_cons]; rfl, still⟩

/-- A file that is rewritten as it should be begins with the lines as they are copied. -/
theorem begins_copied {pieces lines : List (List UInt8)} {file unread tail : List UInt8}
    (each : ∀ piece ∈ pieces, Stdio.Piece piece)
    (copies : List.Forall₂ (Copy sha256 uname opwd) pieces lines) (read : file = pieces.flatten ++ unread)
    (rewritten : Rewritten sha256 uname opwd file (output lines ++ tail)) :
    ∃ rest, file = output (pieces.map copied) ++ rest ∧ Rewritten sha256 uname opwd rest tail := by
  induction copies generalizing file with
  | nil => exact ⟨file, rfl, rewritten⟩
  | @cons piece line pieces lines copy copies ih =>
    obtain ⟨first, others⟩ := List.forall_mem_cons.mp each
    rw [List.flatten_cons, List.append_assoc] at read
    rw [output_cons, List.append_assoc, List.cons_append] at rewritten
    obtain ⟨old, rest, rfl, plain, kept, later⟩ := rewritten.split copy.plain_line.1
    rcases piece_newline first with none | ⟨body, rfl, body_plain⟩
    · -- the newline has not been read with the line
      have begins : piece <+: old := by
        rcases List.prefix_or_prefix_of_prefix (List.prefix_append old (newline :: rest)) (read ▸
          List.prefix_append piece _) with shorter | longer
        · obtain ⟨more, rfl⟩ := shorter
          cases more with
          | nil => rw [List.append_nil]
          | cons c more =>
            rw [List.append_assoc] at read
            obtain ⟨rfl, -⟩ := List.cons.inj (List.append_cancel_left read)
            exact absurd (List.mem_append_right _ List.mem_cons_self) none
        · exact longer
      have whole := copy.old kept ((copied_begins piece).trans begins)
      have same : old = piece := begins.eq_of_length
        (Nat.le_antisymm begins.length_le (whole ▸ (copied_begins piece).length_le)) |>.symm
      subst same
      obtain ⟨last, rfl, still⟩ := blank_lines others copies (List.append_cancel_left read) later
      exact ⟨last, by rw [List.map_cons, output_cons, ← whole, List.append_assoc, List.cons_append], still⟩
    · rw [List.append_assoc, List.singleton_append] at read
      obtain ⟨rfl, rest_read⟩ := first_split read plain body_plain
      have begins : copied (old ++ [newline]) <+: old := by
        rw [copied_line plain]
        exact List.takeWhile_prefix _
      obtain ⟨last, rfl, still⟩ := ih others rest_read later
      refine ⟨last, ?_, still⟩
      rw [List.map_cons, output_cons, ← copy.old kept begins, List.append_assoc, List.cons_append]

theorem rewritten_copied {pieces lines : List (List UInt8)} {rest tail : List UInt8}
    (copies : List.Forall₂ (Copy sha256 uname opwd) pieces lines)
    (later : Rewritten sha256 uname opwd rest tail) :
    Rewritten sha256 uname opwd (output (pieces.map copied) ++ rest) (output lines ++ tail) := by
  induction copies with
  | nil => exact later
  | cons copy _ ih =>
    rw [List.map_cons, output_cons, output_cons, List.append_assoc, List.append_assoc, List.cons_append,
      List.cons_append]
    exact .line (copied_plain _).1 copy.kept ih

theorem Kept.shift {front : List UInt8} (kept : Kept sha256 uname opwd (front ++ line) line) : front = [] := by
  generalize whole : front ++ line = old at kept
  cases kept with
  | same => exact List.append_left_eq_self.mp whole
  | @changed user hash other uid user_plain hash_plain _ _ colons _ =>
    have count := congrArg (List.count colon) whole
    simp only [entry, List.count_append, List.count_cons_self, List.count_eq_zero_of_not_mem user_plain,
      List.count_eq_zero_of_not_mem hash_plain,
      List.count_eq_zero_of_not_mem colons] at count
    have plain : colon ∉ front := List.count_eq_zero.mp (by omega)
    have split : (front ++ user) ++ colon :: (other ++ colon :: uid) = user ++ colon :: (hash ++ colon :: uid) := by
      simpa [entry] using whole
    obtain ⟨same, -⟩ := first_split split (fun member => (List.mem_append.mp member).elim plain user_plain) user_plain
    exact List.append_left_eq_self.mp same

theorem rewritten_plain {file : List UInt8} (rewritten : Rewritten sha256 uname opwd file line)
    (plain : newline ∉ file) : Kept sha256 uname opwd file line := by
  cases rewritten with
  | last _ kept => exact kept
  | line => exact absurd (List.mem_append_right _ List.mem_cons_self) plain

/-- No file is rewritten to its own end. -/
theorem Rewritten.shift {front file : List UInt8} (rewritten : Rewritten sha256 uname opwd (front ++ file) file) :
    front = [] := by
  have plain : newline ∉ front := by
    have count := rewritten.count
    rw [List.count_append] at count
    exact List.count_eq_zero.mp (by omega)
  by_cases more : newline ∈ file
  · obtain ⟨line, rest, rfl, line_plain⟩ := List.eq_append_cons_of_mem more
    obtain ⟨old, later, whole, old_plain, kept, -⟩ := rewritten.split line_plain
    rw [← List.append_assoc] at whole
    obtain ⟨rfl, -⟩ := first_split whole (fun member => (List.mem_append.mp member).elim plain line_plain) old_plain
    exact kept.shift
  · exact (rewritten_plain rewritten fun member => (List.mem_append.mp member).elim plain more).shift

end Bytes

/-! The whole file. -/

section File
variable (sha256 : List UInt8 → Nat → UInt8) (answers : Answers) (uname opwd npwd : List UInt8)

/-- The pieces in which fgets reads a file. -/
def pieces (file : List UInt8) : List (List UInt8) := Stdio.lines MAX_LINE_SIZE (.fopen answers.fails file)

def newSize (file : List UInt8) : Nat := ((pieces answers file).map (copySize sha256 uname opwd)).sum

/-- The lines that are copied when no hash is another one. -/
def unchanged (file : List UInt8) : List UInt8 := output ((pieces answers file).map copied)

/-- The file is made up of the lines as they are copied. If it is not made empty it may also begin
with them, and then the new ones end where they do. -/
def Overlaid (file : List UInt8) : Prop := ∃ rest, file = unchanged answers file ++ rest ∧
  (rest = [] ∧ (answers.truncates = true ∨ (unchanged answers file).length ≤ newSize sha256 answers uname opwd file) ∨
    answers.truncates = false ∧ (unchanged answers file).length = newSize sha256 answers uname opwd file)

/-- What fopen with "w" leaves of the file. -/
def opened (file : List UInt8) : List UInt8 := if answers.truncates then [] else file

/-- Nothing is written, or the write is refused and the file is as it was, or the new lines are
written at once in the place of the old ones. -/
def Fine (file : List UInt8) : Prop :=
  answers.reads = false ∨ answers.writes = false ∨
    (∀ piece ∈ pieces answers file, Hit sha256 uname opwd piece = false) ∨
    answers.room < newSize sha256 answers uname opwd file ∨
    (PAGESIZE < newSize sha256 answers uname opwd file ∨ answers.accepts = false) ∧
      answers.left (opened answers file) = file ∨
    answers.accepts = true ∧ newSize sha256 answers uname opwd file ≤ PAGESIZE ∧ Overlaid sha256 answers uname opwd file

variable {sha256 answers uname opwd npwd} {s : Server}

theorem pieces_each (file : List UInt8) : ∀ piece ∈ pieces answers file, Stdio.Piece piece := Stdio.linesOf_pieces

theorem pieces_flatten (file : List UInt8) : ∃ unread, file = (pieces answers file).flatten ++ unread := by
  obtain ⟨unread, whole⟩ := (Stdio.File.fopen answers.fails file).readable_begins
  exact ⟨unread, by rw [pieces, Stdio.lines_flatten _ (by decide)]; exact whole.symm⟩

theorem pieces_nil : pieces answers [] = [] := by
  obtain ⟨unread, whole⟩ := @pieces_flatten answers []
  refine List.eq_nil_iff_forall_not_mem.mpr fun piece member => (pieces_each [] piece member).some ?_
  exact List.flatten_eq_nil_iff.mp (List.append_eq_nil_iff.mp whole.symm).1 piece member

theorem copySize_pos (piece : List UInt8) : 0 < copySize sha256 uname opwd piece := by
  unfold copySize
  split
  · exact Nat.succ_pos _
  · exact Nat.succ_pos _

/-- Where no request fails, all lines have to be read with their newlines and to be strings. -/
theorem overlaid_whole {file : List UInt8} (reads : ∀ pos, answers.fails pos = false)
    (truncates : answers.truncates = true) :
    Overlaid sha256 answers uname opwd file ↔ ∀ piece ∈ pieces answers file, Whole piece := by
  have whole : (pieces answers file).flatten = file := by
    rw [pieces, Stdio.lines_flatten _ (by decide), Stdio.File.fopen_readable reads]
  have made : Overlaid sha256 answers uname opwd file ↔
      (pieces answers file).flatten = output ((pieces answers file).map copied) := by
    rw [whole]
    constructor
    · rintro ⟨rest, same, ⟨rfl, -⟩ | ⟨refused, -⟩⟩
      · rwa [List.append_nil] at same
      · rw [truncates] at refused
        cases refused
    · exact fun same => ⟨[], by rw [List.append_nil]; exact same, .inl ⟨rfl, .inl truncates⟩⟩
  rw [made]
  have each := @pieces_each answers file
  generalize pieces answers file = pieces at each
  induction pieces with
  | nil => exact iff_of_true rfl fun _ member => absurd member List.not_mem_nil
  | cons piece pieces ih =>
    obtain ⟨first, others⟩ := List.forall_mem_cons.mp each
    have later : pieces.flatten = output (pieces.map copied) ↔ ∀ piece ∈ pieces, Whole piece := ih others
    refine Iff.trans ?_ ((and_congr_right fun _ => later).trans List.forall_mem_cons.symm)
    rw [List.flatten_cons, List.map_cons, output_cons]
    rcases piece_newline first with none | ⟨body, rfl, plain⟩
    · refine iff_of_false (fun same => ?_) fun ⟨⟨line, ended, _⟩, _⟩ =>
        none (ended ▸ List.mem_append_right _ List.mem_cons_self)
      have count := congrArg (List.count newline) same
      have lines : ∀ line ∈ pieces.map copied, newline ∉ line := fun line member => by
        obtain ⟨piece, -, rfl⟩ := List.mem_map.mp member
        exact (copied_plain piece).1
      rw [List.count_append, List.count_append, List.count_cons_self, output_count lines, List.length_map,
        List.count_eq_zero_of_not_mem none,
        List.count_eq_zero_of_not_mem (copied_plain piece).1] at count
      have few := newline_le others
      omega
    · rw [List.append_assoc, List.singleton_append]
      constructor
      · intro same
        obtain ⟨here, later⟩ := first_split same plain (copied_plain _).1
        exact ⟨⟨body, rfl, plain, here ▸ (copied_plain _).2⟩, later⟩
      · rintro ⟨⟨line, ended, _, string⟩, later⟩
        obtain ⟨rfl, -⟩ := List.append_inj' ended rfl
        rw [copied_string plain string, later]

theorem overwrite_done (opens : answers.writes = true) (fits : s.mc.length ≤ PAGESIZE)
    (accepts : answers.accepts = true) :
    overwrite answers s = .done .ok { s with file := s.mc ++ (opened answers s.file).drop s.mc.length } := by
  have passes : ¬ (PAGESIZE < s.mc.length ∨ answers.accepts = false) := by
    rw [accepts]
    simpa using fits
  have written : fwrite answers s.mc { s with file := opened answers s.file } =
      .done s.mc.length { s with file := s.mc ++ (opened answers s.file).drop s.mc.length } := by
    unfold fwrite
    rw [if_neg passes]
    rfl
  unfold overwrite
  rw [if_neg (by simp [opens]), bind_done (modify_run _ _), bind_done (get_run _)]
  refine (bind_done written).trans ?_
  dsimp only
  rw [if_neg fun different => different rfl]
  rfl

theorem overwrite_halted (opens : answers.writes = true) (some : 0 < s.mc.length)
    (refused : PAGESIZE < s.mc.length ∨ answers.accepts = false) :
    overwrite answers s = .halted .assertion { s with file := answers.left (opened answers s.file) } := by
  have written : fwrite answers s.mc { s with file := opened answers s.file } =
      .done 0 { s with file := answers.left (opened answers s.file) } := by
    unfold fwrite
    rw [if_pos refused]
    rfl
  unfold overwrite
  rw [if_neg (by simp [opens]), bind_done (modify_run _ _), bind_done (get_run _)]
  refine (bind_done written).trans ?_
  dsimp only
  rw [if_pos (Nat.ne_of_lt some)]
  rfl

theorem Rewritten.refl (file : List UInt8) : Rewritten sha256 uname opwd file file := by
  induction size : file.length using Nat.strong_induction_on generalizing file with
  | _ size ih =>
    by_cases more : newline ∈ file
    · obtain ⟨line, rest, rfl, plain⟩ := List.eq_append_cons_of_mem more
      refine .line plain .same (ih rest.length ?_ rest rfl)
      rw [← size, List.length_append, List.length_cons]
      omega
    · exact .last more .same

/-- What has to stand behind the lines that are copied, if `written` bytes are written over a file
that has not been made empty. -/
theorem tail_rewritten {lines : List (List UInt8)} {rest : List UInt8} {written : Nat} (some : lines ≠ []) :
    Rewritten sha256 uname opwd rest ((output lines ++ rest).drop written) ↔
      rest = [] ∧ (output lines).length ≤ written ∨ (output lines).length = written := by
  rcases Nat.lt_trichotomy written (output lines).length with short | same | long
  · refine iff_of_false (fun rewritten => ?_) (by omega)
    obtain ⟨front, last, rfl⟩ := List.eq_nil_or_concat lines |>.resolve_left some
    rw [List.concat_eq_append] at short rewritten
    have ends : output (front ++ [last]) = (output front ++ last) ++ [newline] := by simp [output]
    have count := rewritten.count
    rw [List.drop_append_of_le_length short.le, List.count_append] at count
    rw [ends, List.length_append, List.length_singleton] at short
    rw [ends, List.drop_append_of_le_length (by omega), List.count_append, List.count_singleton_self] at count
    omega
  · rw [same, List.drop_left]
    exact iff_of_true (Rewritten.refl rest) (.inr rfl)
  · obtain ⟨more, rfl⟩ := Nat.exists_eq_add_of_lt long
    rw [Nat.add_assoc, List.drop_length_add_append]
    constructor
    · intro rewritten
      have apart : Rewritten sha256 uname opwd (rest.take (more + 1) ++ rest.drop (more + 1))
          (rest.drop (more + 1)) := by
        rwa [List.take_append_drop]
      have front := apart.shift
      rw [List.take_eq_nil_iff] at front
      exact .inl ⟨front.resolve_left (Nat.succ_ne_zero more), by omega⟩
    · rintro (⟨rfl, -⟩ | same)
      · rw [List.drop_nil]
        exact Rewritten.refl []
      · omega

/-- The file with the new lines in the place of the old ones. -/
theorem overlaid_iff {lines : List (List UInt8)} {file : List UInt8}
    (length : (output lines).length = newSize sha256 answers uname opwd file)
    (some : pieces answers file ≠ []) (copies : List.Forall₂ (Copy sha256 uname opwd) (pieces answers file) lines) :
    Rewritten sha256 uname opwd file (output lines ++ (opened answers file).drop (output lines).length) ↔
        Overlaid sha256 answers uname opwd file := by
  obtain ⟨unread, read⟩ := @pieces_flatten answers file
  have behind : ∀ rest, file = unchanged answers file ++ rest →
      (Rewritten sha256 uname opwd rest ((opened answers file).drop (output lines).length) ↔
        rest = [] ∧ (answers.truncates = true ∨
          (unchanged answers file).length ≤ newSize sha256 answers uname opwd file) ∨
          answers.truncates = false ∧ (unchanged answers file).length = newSize sha256 answers uname opwd file) := by
    intro rest whole
    unfold opened
    cases truncates : answers.truncates with
    | true =>
      rw [if_pos rfl, List.drop_nil]
      constructor
      · intro later
        rw [← List.append_nil rest] at later
        exact .inl ⟨later.shift, .inl rfl⟩
      · rintro (⟨rfl, -⟩ | ⟨refused, -⟩)
        · exact Rewritten.refl []
        · cases refused
    | false =>
      have old : (pieces answers file).map copied ≠ [] := by simpa using some
      have later := @tail_rewritten sha256 uname opwd _ rest (newSize sha256 answers uname opwd file) old
      rw [if_neg Bool.false_ne_true, length]
      have same : file.drop (newSize sha256 answers uname opwd file) =
        (output ((pieces answers file).map copied) ++ rest).drop (newSize sha256 answers uname opwd file) :=
          congrArg (List.drop _) whole
      rw [same, later]
      simp [unchanged]
  constructor
  · intro rewritten
    obtain ⟨rest, whole, later⟩ := begins_copied (pieces_each file) copies read rewritten
    exact ⟨rest, whole, (behind rest whole).mp later⟩
  · rintro ⟨rest, whole, fits⟩
    have all := rewritten_copied copies ((behind rest whole).mpr fits)
    rwa [show output ((pieces answers file).map copied) ++ rest = file from whole.symm] at all

/-- The file is written where a line is hit. -/
theorem overwrite_safe {lines : List (List UInt8)} (opens : answers.writes = true) (mc : s.mc = output lines)
    (length : s.mc.length = newSize sha256 answers uname opwd s.file)
    (some : ∃ piece ∈ pieces answers s.file, Hit sha256 uname opwd piece = true)
    (copies : List.Forall₂ (Copy sha256 uname opwd) (pieces answers s.file) lines) :
    Safe sha256 uname opwd s.file (overwrite answers s) ↔
      (PAGESIZE < newSize sha256 answers uname opwd s.file ∨ answers.accepts = false) ∧
        answers.left (opened answers s.file) = s.file ∨
        answers.accepts = true ∧ newSize sha256 answers uname opwd s.file ≤ PAGESIZE ∧
            Overlaid sha256 answers uname opwd s.file := by
  obtain ⟨hitPiece, member, -⟩ := some
  rw [← length]
  by_cases refused : PAGESIZE < s.mc.length ∨ answers.accepts = false
  · have nonempty : 0 < s.mc.length := by
      rw [length]
      exact List.sum_pos_iff_exists_pos_nat.mpr ⟨_, List.mem_map_of_mem member, copySize_pos hitPiece⟩
    rw [overwrite_halted opens nonempty refused]
    refine ⟨fun same => .inl ⟨refused, same⟩, ?_⟩
    rintro (⟨-, same⟩ | ⟨accepts, fits, -⟩)
    · exact same
    · rcases refused with long | no
      · exact absurd fits (Nat.not_le.mpr long)
      · rw [no] at accepts
        cases accepts
  · obtain ⟨fits, accepts⟩ := not_or.mp refused
    rw [overwrite_done opens (Nat.le_of_not_lt fits) (by simpa using accepts)]
    change Rewritten sha256 uname opwd s.file (s.mc ++ (opened answers s.file).drop s.mc.length) ↔ _
    rw [mc] at length ⊢
    rw [overlaid_iff length (List.ne_nil_of_mem member) copies]
    constructor
    · exact fun overlaid => .inr ⟨by simpa using accepts, mc ▸ Nat.le_of_not_lt fits, overlaid⟩
    · rintro (⟨long | no, -⟩ | ⟨-, -, overlaid⟩)
      · exact absurd (mc.symm ▸ long) fits
      · exact absurd no accepts
      · exact overlaid

theorem change_safe : Safe sha256 uname opwd s.file (change sha256 answers uname opwd npwd s) ↔
    Fine sha256 answers uname opwd s.file := by
  unfold change Fine
  rw [bind_done (modify_run _ _)]
  by_cases closed : answers.reads = false
  · rw [if_pos closed]
    exact iff_of_true rfl (.inl closed)
  have read : Stdio.lines MAX_LINE_SIZE (.fopen answers.fails ({ s with mc := [] } : Server).file) =
    pieces answers s.file := rfl
  rw [if_neg closed, bind_done (get_run _), read]
  rcases @copyLines_emits sha256 answers uname opwd npwd { s with mc := [] } (pieces answers s.file) false
    (Nat.zero_le _) with
    ⟨full, after, ran, file⟩ | ⟨room, success, after, out, ran, file, mc, length, same, lines, whole, copies⟩
  · rw [List.length_nil, Nat.zero_add] at full
    rw [bind_halted ran]
    exact iff_of_true file (.inr (.inr (.inr (.inl full))))
  · rw [List.nil_append] at mc
    rw [List.length_nil, Nat.zero_add] at room
    rw [bind_done ran, same, Bool.false_or]
    have file : after.file = s.file := file
    cases any : (pieces answers s.file).any (Hit sha256 uname opwd) with
    | false =>
      rw [if_pos rfl]
      have none : ∀ piece ∈ pieces answers s.file, Hit sha256 uname opwd piece = false := by simpa using any
      exact iff_of_true file (.inr (.inr (.inl none)))
    | true =>
      rw [if_neg (fun none => by cases none)]
      obtain ⟨piece, member, hits⟩ := List.any_eq_true.mp any
      by_cases shut : answers.writes = false
      · have refused : overwrite answers after = .done .error after := by
          unfold overwrite
          rw [if_pos shut]
          rfl
        rw [refused]
        exact iff_of_true file (.inr (.inl shut))
      · have wrote := @overwrite_safe sha256 answers uname opwd after lines (by simpa using shut)
          (mc.trans whole) (file ▸ mc ▸ length)
          ⟨piece, file ▸ member, hits⟩ (file ▸ copies)
        rw [file] at wrote
        rw [wrote]
        constructor
        · exact fun fine => .inr (.inr (.inr (.inr fine)))
        · rintro (other | other | other | other | fine)
          · exact absurd other closed
          · exact absurd other shut
          · exact absurd (hits.symm.trans (other piece member)) Bool.true_eq_false.mp
          · exact absurd other (Nat.not_lt.mpr room)
          · exact fine

/-- Taking a request apart does not touch the file. -/
theorem split_keeps (total : UInt32) : Keeps Server.file (split total) := by
  have stores : ∀ offset, Keeps Server.file (putZero offset) := by
    intro offset s
    unfold putZero
    by_cases inside : offset < bufferSize
    · rw [if_pos inside]
    · rw [if_neg inside]
  unfold split
  refine .get fun s => ?_
  split
  case isTrue => exact .pure _
  case isFalse => exact .bind (stores _) fun _ => .get fun _ => .bind (stores _) fun _ => .get fun _ => .bind (stores _) fun _ => .pure _

theorem split_file {total : UInt32} {after : Server} {parts : Option Parts}
    (formed : split total s = .done parts after) : after.file = s.file := by
  have kept := split_keeps total s
  rwa [formed] at kept

theorem pwdsvrRequest_run {total : UInt32} {after : Server} {parts : Parts}
    (formed : split total s = .done (some parts) after) :
    pwdsvrRequest sha256 answers total s =
      change sha256 answers (stringAt after.req parts.uname) (stringAt after.req parts.opwd)
          (stringAt after.req parts.npwd) after := by
  unfold pwdsvrRequest
  rw [bind_done formed]
  rfl

/-- A request that is taken apart is answered as it should be, and leaves the file as it should be, if and
only if nothing is written, or the lines as they are copied make up the file and the new ones fit into one page. -/
theorem password_file_safe {total : UInt32} {after : Server} {parts : Parts}
    (formed : split total s = .done (some parts) after) :
    Safe sha256 (stringAt after.req parts.uname) (stringAt after.req parts.opwd) s.file
      (pwdsvrRequest sha256 answers total s) ↔
      Fine sha256 answers (stringAt after.req parts.uname) (stringAt after.req parts.opwd) s.file := by
  rw [pwdsvrRequest_run formed, ← split_file formed]
  exact change_safe

end File

/-! Runs on a file. -/

/-- A request of the user `u` with the password that is always right. -/
private def asked (file : List UInt8) : Server where
  req := fun i => (message 2 13 2 (text "u" ++ [0] ++ text "hastalavista" ++ [0] ++ text "p" ++ [0])).getD i 0
  file := file
  mc := []
  randstate := 0

private def obliging : Answers :=
  { reads := true, fails := fun _ => false, writes := true, truncates := true, accepts := true, left := id,
    room := 10000 }

private def zeros : List UInt8 → Nat → UInt8 := fun _ _ => 0

private def askedParts : Parts := { uname := 12, opwd := 14, npwd := 27 }

private def oneLine : Server := asked (text "u:x:0\n")

private def longLine : Server := asked (text "u:x:0\n" ++ List.replicate 300 (chr 'v') ++ [newline])

private def afterOne : Server := (split 17 oneLine).state

private def afterLong : Server := (split 17 longLine).state

private theorem asked_split :
    split 17 oneLine = .done (some askedParts) afterOne ∧ split 17 longLine = .done (some askedParts) afterLong :=
  ⟨Outcome.done_of_value (by decide +kernel), Outcome.done_of_value (by decide +kernel)⟩

private theorem asked_strings :
    (stringAt afterOne.req askedParts.uname = text "u" ∧ stringAt afterOne.req askedParts.opwd = text "hastalavista") ∧
    stringAt afterLong.req askedParts.uname = text "u" ∧
        stringAt afterLong.req askedParts.opwd = text "hastalavista" := by
  decide +kernel

/-- The password in the line is replaced. -/
theorem password_file_safe_line :
    Safe zeros (text "u") (text "hastalavista") oneLine.file (pwdsvrRequest zeros obliging 17 oneLine) := by
  have fine : Fine zeros obliging (text "u") (text "hastalavista") oneLine.file := by
    refine .inr (.inr (.inr (.inr (.inr ⟨rfl, by decide +kernel, (overlaid_whole (fun _ => rfl) rfl).mpr ?_⟩))))
    have read : pieces obliging oneLine.file = [text "u:x:0" ++ [newline]] := by decide +kernel
    rw [read]
    exact List.forall_mem_singleton.mpr ⟨text "u:x:0", rfl, by decide, by decide⟩
  have safe := @password_file_safe zeros obliging oneLine 17 afterOne askedParts asked_split.1
  rw [asked_strings.1.1, asked_strings.1.2] at safe
  rwa [safe]

private def AllSafe : Prop :=
  ∀ (sha256 : List UInt8 → Nat → UInt8) (answers : Answers) (total : UInt32) (s after : Server) (parts : Parts),
  split total s = .done (some parts) after →
    Safe sha256 (stringAt after.req parts.uname) (stringAt after.req parts.opwd) s.file
      (pwdsvrRequest sha256 answers total s)

private theorem fine_of_allSafe {sha256 : List UInt8 → Nat → UInt8} {answers : Answers} {s after : Server}
    {total : UInt32} {parts : Parts}
    (all : AllSafe) (formed : split total s = .done (some parts) after) :
    Fine sha256 answers (stringAt after.req parts.uname) (stringAt after.req parts.opwd) after.file := by
  have safe := all sha256 answers total s after parts formed
  rw [pwdsvrRequest_run formed, ← split_file formed] at safe
  exact change_safe.mp safe

/-- The long line is read in two pieces and written as two lines. -/
theorem long_line_cut : ¬ ∀ (sha256 : List UInt8 → Nat →
    UInt8) (answers : Answers) (total : UInt32) (s after : Server) (parts : Parts),
    split total s = .done (some parts) after →
      Safe sha256 (stringAt after.req parts.uname) (stringAt after.req parts.opwd) s.file
          (pwdsvrRequest sha256 answers total s) := by
  intro all
  have fine := @fine_of_allSafe zeros obliging _ _ _ _ all asked_split.2
  rw [asked_strings.2.1, asked_strings.2.2] at fine
  have hits : (pieces obliging afterLong.file).all
    (fun piece => !Hit zeros (text "u") (text "hastalavista") piece) = false := by decide +kernel
  have cut : (pieces obliging afterLong.file).all (fun piece => piece.getLast? = some newline) = false := by
    decide +kernel
  have room : ((pieces obliging afterLong.file).map (copySize zeros (text "u") (text "hastalavista"))).sum ≤ 10000 := by
    decide +kernel
  rcases fine with closed | shut | none | full | ⟨-, empty⟩ | ⟨-, -, overlaid⟩
  · cases closed
  · cases shut
  · rw [List.all_eq_true.mpr fun piece member => by rw [none piece member]; rfl] at hits
    cases hits
  · exact absurd full (Nat.not_lt.mpr room)
  · rw [← (show [] = afterLong.file from empty), pieces_nil] at hits
    cases hits
  · have whole := (overlaid_whole (fun _ => rfl) rfl).mp overlaid
    rw [List.all_eq_true.mpr fun piece member => ?_] at cut
    · cases cut
    · obtain ⟨line, rfl, -⟩ := whole piece member
      exact decide_eq_true List.getLast?_concat

end Egos.Pwdsvr
