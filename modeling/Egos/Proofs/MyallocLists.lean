import Egos.Earth.Myalloc
import Egos.Library.Transition

/-! The list of allocated areas: it holds every live area once, each header knows the link
that points to it, and my_check finds nothing wrong. -/

namespace Egos.Myalloc
open Library Library.Prog Links

/-- An area of the size that was asked for, with a header and a tail that have not been
written over. -/
structure Sealed (chunk : Chunk) (asked : Nat) : Prop where
  magic : chunk.magic = MAGIC_ALLOC
  freeFile : chunk.freeFile = none
  freeLine : chunk.freeLine = 0
  size : chunk.size.toNat = asked
  data : ∃ area, area.length = asked ∧ chunk.data = area ++ MAGIC_TAIL

/-- The list leads through the live areas, and back. -/
structure Intact (s : Store) (live : Addr → Option Nat) (nodes : List Addr) : Prop where
  chains : s.links.Chains nodes
  backed : Backed s.back .head nodes
  listed : ∀ mh, mh ∈ nodes ↔ live mh ≠ none
  areas : ∀ mh asked, live mh = some asked → ∃ chunk, s.heap mh = some chunk ∧ Sealed chunk asked

variable {s after : Store} {live : Addr → Option Nat} {nodes front rest : List Addr} {mh other : Addr}
    {chunk : Chunk} {asked : Nat}
  {change : Chunk → Chunk} {place : Place Addr} {value : Option Addr}

/-! Edits of a header. -/

def Chunk.body (chunk : Chunk) : Chunk := { chunk with next := none, back := .head }

theorem Sealed.congr {other : Chunk} (sealed : Sealed chunk asked) (same : other.body = chunk.body) :
    Sealed other asked := by
  have sealed : Sealed chunk.body asked := ⟨sealed.magic, sealed.freeFile, sealed.freeLine, sealed.size, sealed.data⟩
  rw [← same] at sealed
  exact ⟨sealed.magic, sealed.freeFile, sealed.freeLine, sealed.size, sealed.data⟩

namespace Store

/-- `*place = value` -/
def setLink (s : Store) (place : Place Addr) (value : Option Addr) : Store :=
  match place with
  | .head => { s with myList := value }
  | .after mh => s.edit mh fun chunk => { chunk with next := value }

def setBack (s : Store) (mh : Addr) (place : Place Addr) : Store := s.edit mh fun chunk => { chunk with back := place }

def used (s : Store) : Place Addr → Bool
  | .head => true
  | .after mh => (s.heap mh).isSome

@[simp] theorem put_self (chunk : Option Chunk) : (s.put mh chunk).heap mh = chunk := Function.update_self ..

@[simp] theorem put_of_ne (different : other ≠ mh) (chunk : Option Chunk) :
    (s.put mh chunk).heap other = s.heap other :=
  Function.update_of_ne different ..

/-- What is read from the headers and not edited stays. -/
theorem edit_map {τ : Type} {view : Chunk → τ} (same : ∀ chunk, view (change chunk) = view chunk) :
    ((s.edit mh change).heap other).map view = (s.heap other).map view := by
  unfold edit
  by_cases here : other = mh
  · subst here
    simp [Function.comp_def, same]
  · simp [here]

theorem edit_links (same : ∀ chunk, (change chunk).next = chunk.next) : (s.edit mh change).links = s.links := by
  refine congrArg (Links.mk s.myList) (funext fun other => ?_)
  unfold edit
  by_cases here : other = mh
  · subst here
    cases held : s.heap other with
    | none => simp
    | some chunk => simp [same]
  · simp [here]

theorem edit_back (same : ∀ chunk, (change chunk).back = chunk.back) : (s.edit mh change).back = s.back :=
  funext fun _ => edit_map same

@[simp] theorem edit_used : ((s.edit mh change).heap other).isSome = (s.heap other).isSome := by
  unfold edit
  by_cases here : other = mh
  · subst here
    simp
  · simp [here]

theorem setLink_links (used : s.used place = true) : (s.setLink place value).links = s.links.set place value := by
  cases place with
  | head => rfl
  | after mh =>
    obtain ⟨chunk, held⟩ := Option.isSome_iff_exists.mp used
    refine congrArg (Links.mk s.myList) (funext fun other => ?_)
    unfold setLink edit
    by_cases here : other = mh
    · subst here
      simp [held]
    · simp [here, links]

theorem setLink_of_ne (different : place ≠ .after mh) : (s.setLink place value).heap mh = s.heap mh := by
  cases place with
  | head => rfl
  | after other =>
    refine put_of_ne ?_ _
    rintro rfl
    exact different rfl

theorem setLink_back : (s.setLink place value).back = s.back := by
  cases place with
  | head => rfl
  | after mh => exact edit_back fun _ => rfl

def body (s : Store) (mh : Addr) : Option Chunk := (s.heap mh).map Chunk.body

theorem setLink_body : (s.setLink place value).body = s.body := by
  cases place with
  | head => rfl
  | after mh => exact funext fun _ => edit_map fun _ => rfl

theorem setBack_body : (s.setBack mh place).body = s.body := funext fun _ => edit_map fun _ => rfl

theorem body_used (same : after.body = s.body) : (after.heap mh).isSome = (s.heap mh).isSome := by
  have here := congrArg Option.isSome (congrFun same mh)
  simpa [body] using here

theorem body_data (same : after.body = s.body) : after.data mh = s.data mh := by
  have here := congrArg (Option.map Chunk.data) (congrFun same mh)
  simpa [body, data, Chunk.body, Function.comp_def] using here

theorem body_sealed (same : after.body = s.body) (held : s.heap mh = some chunk) (sealed : Sealed chunk asked) :
    ∃ chunk, after.heap mh = some chunk ∧ Sealed chunk asked := by
  have here := congrFun same mh
  unfold body at here
  rw [held] at here
  obtain ⟨other, held, same⟩ := Option.map_eq_some_iff.mp here
  exact ⟨other, held, sealed.congr same⟩

theorem setBack_links : (s.setBack mh place).links = s.links := edit_links fun _ => rfl

theorem setBack_back (used : (s.heap mh).isSome = true) :
    (s.setBack mh place).back = Function.update s.back mh (some place) := by
  obtain ⟨chunk, held⟩ := Option.isSome_iff_exists.mp used
  funext other
  unfold back setBack edit
  by_cases here : other = mh
  · subst here
    simp [held]
  · simp [here]

end Store

theorem header_run (held : s.heap mh = some chunk) : header mh s = .done chunk s := by
  unfold header
  rw [Prog.bind_done (get_run s), held]
  rfl

theorem setHeader_run (used : (s.heap mh).isSome = true) : setHeader mh change s = .done () (s.edit mh change) := by
  obtain ⟨chunk, held⟩ := Option.isSome_iff_exists.mp used
  exact Prog.bind_done (header_run held)

theorem setLink_run (used : s.used place = true) (value : Option Addr) :
    setLink place value s = .done () (s.setLink place value) := by
  cases place with
  | head => rfl
  | after mh => exact setHeader_run used

def Store.setBack? (s : Store) (ptr : Option Addr) (place : Place Addr) : Store :=
  match ptr with
  | some mh => s.setBack mh place
  | none => s

theorem setBack_run {ptr : Option Addr} (used : ∀ mh, ptr = some mh → (s.heap mh).isSome = true) (place : Place Addr) :
    setBack ptr place s = .done () (s.setBack? ptr place) := by
  cases ptr with
  | none => rfl
  | some mh => exact setHeader_run (used mh rfl)

theorem Store.setBack?_body {ptr : Option Addr} : (s.setBack? ptr place).body = s.body := by
  cases ptr with
  | none => rfl
  | some mh => exact setBack_body

theorem Store.setBack?_links {ptr : Option Addr} : (s.setBack? ptr place).links = s.links := by
  cases ptr with
  | none => rfl
  | some mh => exact setBack_links

namespace Intact

theorem used (intact : Intact s live nodes) (member : mh ∈ nodes) : (s.heap mh).isSome = true := by
  obtain ⟨asked, here⟩ := Option.ne_none_iff_exists'.mp ((intact.listed mh).mp member)
  obtain ⟨chunk, held, _⟩ := intact.areas mh asked here
  rw [held]
  rfl

theorem fresh (intact : Intact s live nodes) (free : s.heap mh = none) : mh ∉ nodes := by
  intro member
  have used := intact.used member
  rw [free] at used
  cases used

end Intact

/-- A header that is not in the list becomes its first one. -/
theorem linkFirst_spec (chains : s.links.Chains nodes) (backed : Backed s.back .head nodes)
    (inside : ∀ mh ∈ nodes, (s.heap mh).isSome = true)
    (fresh : mh ∉ nodes) (used : (s.heap mh).isSome = true) :
    ∃ after, linkFirst mh s = .done () after ∧ after.body = s.body ∧ after.links.Chains (mh :: nodes) ∧
        Backed after.back .head (mh :: nodes) := by
  let linked := s.setLink (.after mh) s.myList
  let aimed := linked.setBack? s.myList (.after mh)
  let last := aimed.setBack mh .head
  have bodies : linked.body = s.body ∧ aimed.body = s.body :=
    ⟨Store.setLink_body, Store.setBack?_body.trans Store.setLink_body⟩
  have first : ∀ first, s.myList = some first → first ∈ nodes := by
    intro first head
    obtain ⟨rest, rfl⟩ := chains.eq_cons head
    exact List.mem_cons_self
  have aims : ∀ first, s.myList = some first → (linked.heap first).isSome = true := fun node head =>
    (Store.body_used bodies.1).trans (inside node (first node head))
  have here : (aimed.heap mh).isSome = true := (Store.body_used bodies.2).trans used
  have ran : linkFirst mh s = .done () (last.setLink .head (some mh)) := by
    unfold linkFirst
    have place : s.used (.after mh) = true := used
    refine (Prog.bind_done (get_run s)).trans
      ((Prog.bind_done (setLink_run place _)).trans ((Prog.bind_done (setBack_run aims _)).trans ?_))
    refine (Prog.bind_done (setBack_run ?_ _)).trans (setLink_run rfl _)
    rintro _ ⟨⟩
    exact here
  refine ⟨_, ran, Store.setLink_body.trans (Store.setBack_body.trans bodies.2), ?_, ?_⟩
  · have links : (last.setLink .head (some mh)).links = (s.links.set (.after mh) s.myList).set .head (some mh) := by
      have same : last.links = s.links.set (.after mh) s.myList :=
        Store.setBack_links.trans (Store.setBack?_links.trans (Store.setLink_links used))
      exact (Store.setLink_links rfl).trans (congrArg (Links.set · .head (some mh)) same)
    rw [links]
    exact chains.prepend fresh
  · have backs : (last.setLink .head (some mh)).back = Function.update aimed.back mh (some .head) :=
      Store.setLink_back.trans (Store.setBack_back here)
    rw [backs]
    refine ⟨Function.update_self .., Backed.congr ?_ fun node member => Function.update_of_ne ?_ _ _⟩
    · cases nodes with
      | nil => trivial
      | cons node rest =>
        have head : s.myList = some node := chains.head_cons
        have backs : aimed.back = Function.update s.back node (some (.after mh)) := by
          have used := aims node head
          change (linked.setBack? s.myList (.after mh)).back = _
          rw [head]
          exact (Store.setBack_back used).trans
            (congrArg (Function.update · node (some (.after mh))) Store.setLink_back)
        rw [backs]
        refine backed.restart (Function.update_self ..) fun other member => Function.update_of_ne ?_ _ _
        rintro rfl
        exact (List.nodup_cons.mp chains.nodup).1 member
    · rintro rfl
      exact fresh member

/-- A header in the list is taken off it. -/
theorem unlink_spec (chains : s.links.Chains (front ++ mh :: rest)) (backed : Backed s.back .head (front ++ mh :: rest))
    (inside : ∀ other ∈ front ++ mh :: rest, (s.heap other).isSome = true) :
    ∃ after, unlink mh s = .done () after ∧ after.body = s.body ∧ after.links.Chains (front ++ rest) ∧
        Backed after.back .head (front ++ rest) := by
  have listed : mh ∈ front ++ mh :: rest := List.mem_append_right _ List.mem_cons_self
  obtain ⟨chunk, held⟩ := Option.isSome_iff_exists.mp (inside mh listed)
  obtain ⟨before, here, behind⟩ := Backed.append.mp backed
  have place : chunk.back = placeAfter .head front := by
    have same : s.back mh = some chunk.back := congrArg (Option.map Chunk.back) held
    exact Option.some.inj (same.symm.trans here)
  have next : s.links.next mh = chunk.next := congrArg (Option.bind · Chunk.next) held
  have nodup := List.nodup_append.mp chains.nodup
  have different : placeAfter .head front ≠ .after mh := by
    rcases placeAfter_cases .head front with ⟨_, head⟩ | ⟨start, last, rfl, place⟩
    · rw [head]; exact nofun
    · rw [place]
      rintro ⟨⟩
      exact nodup.2.2 mh (List.mem_append_right _ List.mem_cons_self) mh List.mem_cons_self rfl
  have used : s.used chunk.back = true := by
    rw [place]
    rcases placeAfter_cases .head front with ⟨_, head⟩ | ⟨start, last, rfl, place⟩
    · rw [head]; rfl
    · rw [place]
      exact inside last (List.mem_append_left _ (List.mem_append_right _ List.mem_cons_self))
  let linked := s.setLink chunk.back chunk.next
  have bodies : linked.body = s.body := Store.setLink_body
  have still : linked.heap mh = some chunk := (Store.setLink_of_ne (place ▸ different)).trans held
  have chained : linked.links.Chains (front ++ rest) := by
    have links : linked.links = s.links.set (placeAfter .head front) (s.links.next mh) := by
      rw [← place, next]
      exact Store.setLink_links used
    rw [links]
    exact chains.remove
  have follows : ∀ node, chunk.next = some node → ∃ more, rest = node :: more := by
    intro node head
    obtain ⟨_, _, _, path⟩ := Leads.append.mp chains.leads
    rw [next, head] at path
    cases rest with
    | nil => cases path
    | cons first more =>
      obtain ⟨same, _⟩ := path
      cases same
      exact ⟨more, rfl⟩
  have aims : ∀ node, chunk.next = some node → (linked.heap node).isSome = true := by
    intro node head
    obtain ⟨more, rfl⟩ := follows node head
    refine (Store.body_used bodies).trans (inside node ?_)
    simp
  have ran : unlink mh s = .done () (linked.setBack? chunk.next chunk.back) := by
    unfold unlink
    refine (Prog.bind_done (header_run held)).trans ((Prog.bind_done (setLink_run used _)).trans ?_)
    exact (Prog.bind_done (header_run still)).trans (setBack_run aims _)
  have bodied : (linked.setBack? chunk.next chunk.back).body = s.body := Store.setBack?_body.trans bodies
  refine ⟨_, ran, bodied, by rw [Store.setBack?_links]; exact chained, ?_⟩
  have linkedBack : linked.back = s.back := Store.setLink_back
  cases after : chunk.next with
  | none =>
    obtain ⟨_, _, _, path⟩ := Leads.append.mp chains.leads
    rw [next, after] at path
    cases rest with
    | nil =>
      rw [List.append_nil]
      exact linkedBack ▸ before
    | cons node more => cases path.1
  | some node =>
    obtain ⟨more, rfl⟩ := follows node after
    have backs : (linked.setBack? (some node) chunk.back).back = Function.update s.back node (some chunk.back) :=
      (Store.setBack_back (aims node after)).trans (congrArg (Function.update · node (some chunk.back)) linkedBack)
    have apart : node ∉ front := fun inside =>
      nodup.2.2 node inside node (List.mem_cons_of_mem _ List.mem_cons_self) rfl
    have first : node ∉ more := (List.nodup_cons.mp (List.nodup_cons.mp nodup.2.1).2).1
    rw [backs]
    refine Backed.append.mpr ⟨before.congr fun other member => Function.update_of_ne ?_ _ _, ?_⟩
    · rintro rfl
      exact apart member
    · refine behind.restart ?_ fun other member => Function.update_of_ne ?_ _ _
      · rw [Function.update_self, place]
      · rintro rfl
        exact first member

/-! The bytes of an area. -/

theorem overwrite_inside {area bytes behind : List UInt8} {offset : Nat}
    (inside : offset + bytes.length ≤ area.length) :
    overwrite (area ++ behind) offset bytes = overwrite area offset bytes ++ behind ∧
        (overwrite area offset bytes).length = area.length := by
  unfold overwrite
  constructor
  · rw [List.take_append_of_le_length (by omega), List.drop_append_of_le_length inside, List.append_assoc,
      List.append_assoc, List.append_assoc]
  · simp only [List.length_append, List.length_take, List.length_drop]
    omega

theorem overwrite_last {data bytes : List UInt8} {offset : Nat} (exact : offset + bytes.length = data.length) :
    overwrite data offset bytes = data.take offset ++ bytes := by
  unfold overwrite
  rw [List.drop_of_length_le exact.ge, List.append_nil]

theorem writeAt_run {offset : Nat} {bytes : List UInt8} (held : s.heap mh = some chunk)
    (inside : offset + bytes.length ≤ chunk.data.length) :
    writeAt mh offset bytes s = .done () (s.edit mh
        fun chunk => { chunk with data := overwrite chunk.data offset bytes }) := by
  unfold writeAt
  refine (Prog.bind_done (header_run held)).trans ?_
  rw [if_pos inside]
  exact setHeader_run (by rw [held]; rfl)

/-- The list does not see the headers of other memory. -/
theorem chains_congr (chains : s.links.Chains nodes) (list : after.myList = s.myList)
    (same : ∀ mh ∈ nodes, after.heap mh = s.heap mh) :
    after.links.Chains nodes :=
  chains.congr list fun mh member => congrArg (Option.bind · Chunk.next) (same mh member).symm

theorem backed_congr (backed : Backed s.back .head nodes) (same : ∀ mh ∈ nodes, after.heap mh = s.heap mh) :
    Backed after.back .head nodes :=
  backed.congr fun mh member => congrArg (Option.map Chunk.back) (same mh member)

/-- A write inside an area. -/
theorem Intact.write (intact : Intact s live nodes) (here : live mh = some asked) {offset : Nat} {bytes : List UInt8}
    (inside : offset + bytes.length ≤ asked) :
    ∃ after, writeAt mh offset bytes s = .done () after ∧ Intact after live nodes ∧
      after.data mh = (s.data mh).map (overwrite · offset bytes) ∧ ∀ other, other ≠ mh →
          after.heap other = s.heap other := by
  obtain ⟨chunk, held, sealed⟩ := intact.areas mh asked here
  obtain ⟨area, size, data⟩ := sealed.data
  have room : offset + bytes.length ≤ chunk.data.length := by
    rw [data, List.length_append]
    omega
  obtain ⟨kept, length⟩ := @overwrite_inside area bytes MAGIC_TAIL offset (size ▸ inside)
  let written := s.edit mh fun chunk => { chunk with data := overwrite chunk.data offset bytes }
  have now : written.heap mh = some { chunk with data := overwrite chunk.data offset bytes } := by
    simp [written, Store.edit, held]
  have others : ∀ other, other ≠ mh → written.heap other = s.heap other := fun other different =>
    Store.put_of_ne different _
  have links : written.links = s.links := Store.edit_links fun _ => rfl
  have back : written.back = s.back := Store.edit_back fun _ => rfl
  refine ⟨written, writeAt_run held room, ⟨links ▸ intact.chains, back ▸ intact.backed,
    intact.listed, fun other amount there => ?_⟩, ?_, others⟩
  · by_cases self : other = mh
    · subst self
      cases here.symm.trans there
      exact ⟨_, now, sealed.magic, sealed.freeFile, sealed.freeLine, sealed.size, _, length.trans size,
        (congrArg (overwrite · offset bytes) data).trans kept⟩
    · rw [others other self]
      exact intact.areas other amount there
  · unfold Store.data
    rw [now, held]
    rfl

/-! Allocation. -/

theorem blockSize_toNat {total : Size} (fits : total.toNat + 80 < 2 ^ 64) :
    (blockSize total).toNat = headerSize + (total.toNat + 16) := by
  unfold blockSize
  rw [UInt64.toNat_add, UInt64.toNat_add]
  change ((64 + total.toNat) % 2 ^ 64 + 16) % 2 ^ 64 = 64 + (total.toNat + 16)
  omega

theorem doAlloc_spec (intact : Intact s live nodes) {block : Block} {total : Size} (free : s.heap block.addr = none)
    (size : block.bytes.length = (blockSize total).toNat) (fits : total.toNat + 80 < 2 ^ 64) :
    ∃ after, doAlloc block total s = .done () after ∧
      Intact after (Function.update live block.addr (some total.toNat)) (block.addr :: nodes) ∧
      ∀ other, other ≠ block.addr → after.data other = s.data other := by
  rw [blockSize_toNat fits] at size
  let placed := s.put block.addr (some (newChunk total block.bytes))
  have others : ∀ other, other ≠ block.addr →
    placed.heap other = s.heap other := fun other different => Store.put_of_ne different _
  have old : ∀ other ∈ nodes, placed.heap other = s.heap other := by
    intro other member
    refine others other ?_
    rintro rfl
    exact intact.fresh free member
  have here : placed.heap block.addr = some (newChunk total block.bytes) := Store.put_self _
  have inside : ∀ other ∈ nodes, (placed.heap other).isSome = true := fun other member =>
    (congrArg Option.isSome (old other member)).trans (intact.used member)
  have listed : placed.links.Chains nodes := chains_congr intact.chains rfl old
  have behind : Backed placed.back .head nodes := backed_congr intact.backed old
  obtain ⟨linked, links, bodies, chains, backed⟩ :=
    linkFirst_spec listed behind inside (intact.fresh free) (congrArg Option.isSome here)
  obtain ⟨chunk, held, body⟩ : ∃ chunk, linked.heap block.addr = some chunk ∧
      chunk.body = (newChunk total block.bytes).body := by
    have same := congrFun bodies block.addr
    unfold Store.body at same
    rw [here] at same
    exact Option.map_eq_some_iff.mp same
  have data : chunk.data = block.bytes.drop headerSize := congrArg Chunk.data body
  have length : total.toNat + MAGIC_TAIL.length = chunk.data.length := by
    rw [data, List.length_drop, size]
    exact (Nat.add_sub_cancel_left ..).symm
  let tailed := linked.edit block.addr fun chunk => { chunk with data := overwrite chunk.data total.toNat MAGIC_TAIL }
  have ran : doAlloc block total s = .done () tailed := by
    have enough : ¬ block.bytes.length < headerSize := by omega
    unfold doAlloc
    rw [if_neg enough]
    exact (Prog.bind_done (modify_run _ s)).trans ((Prog.bind_done links).trans (writeAt_run held length.le))
  have sealed : Sealed { chunk with data := overwrite chunk.data total.toNat MAGIC_TAIL } total.toNat := by
    refine ⟨congrArg Chunk.magic body, congrArg Chunk.freeFile body, congrArg Chunk.freeLine body,
      congrArg (UInt64.toNat ∘ Chunk.size) body,
      chunk.data.take total.toNat, ?_, overwrite_last length⟩
    rw [List.length_take]
    omega
  have still : ∀ other, other ≠ block.addr →
    tailed.heap other = linked.heap other := fun other different => Store.put_of_ne different _
  have sameLinks : tailed.links = linked.links := Store.edit_links fun _ => rfl
  have sameBack : tailed.back = linked.back := Store.edit_back fun _ => rfl
  refine ⟨tailed, ran, ⟨sameLinks ▸ chains, sameBack ▸ backed, fun other => ?_, fun other asked there => ?_⟩,
    fun other different => ?_⟩
  · by_cases self : other = block.addr
    · simp [self]
    · simp [self, intact.listed]
  · by_cases self : other = block.addr
    · subst self
      rw [Function.update_self] at there
      cases there
      exact ⟨_, by simp [tailed, Store.edit, held], sealed⟩
    · rw [Function.update_of_ne self] at there
      obtain ⟨chunk, held, sealed⟩ := intact.areas other asked there
      rw [still other self]
      exact Store.body_sealed bodies ((others other self).trans held) sealed
  · have same : tailed.data other = linked.data other := congrArg (Option.map Chunk.data) (still other different)
    have before : placed.data other = s.data other := congrArg (Option.map Chunk.data) (others other different)
    exact same.trans ((Store.body_data bodies).trans before)

/-! Checks and releases. -/

theorem bytesAt_run {offset count : Nat} (held : s.heap mh = some chunk) (inside : offset + count ≤ chunk.data.length) :
    bytesAt mh offset count s = .done ((chunk.data.drop offset).take count) s := by
  unfold bytesAt
  refine (Prog.bind_done (header_run held)).trans ?_
  rw [if_pos inside]
  rfl

theorem ensure_run {condition : Bool} (holds : condition = true) (function text : String) :
    ensure condition function text s = .done () s := by
  subst holds
  rfl

theorem Sealed.tail (sealed : Sealed chunk asked) (held : s.heap mh = some chunk) (function : String) :
    ensureTail mh chunk.size function s = .done () s := by
  obtain ⟨area, size, data⟩ := sealed.data
  have behind : (chunk.data.drop chunk.size.toNat).take 16 = MAGIC_TAIL := by
    rw [sealed.size, data, ← size, List.drop_left]
    rfl
  have inside : chunk.size.toNat + 16 ≤ chunk.data.length := by
    rw [sealed.size, data, List.length_append, size]
    exact Nat.le_refl _
  have read := bytesAt_run held inside
  rw [behind] at read
  exact (Prog.bind_done read).trans (ensure_run (decide_eq_true rfl) _ _)

/-- The loop of my_check, from any link of the list on. -/
theorem checkFrom_run {fuel : Nat} (path : Leads s.links.next (s.links.get place) nodes none)
    (backed : Backed s.back place nodes)
    (areas : ∀ mh ∈ nodes, ∃ chunk asked, s.heap mh = some chunk ∧ Sealed chunk asked) (enough : nodes.length < fuel) :
    checkFrom fuel place s = .done () s := by
  induction nodes generalizing fuel place with
  | nil =>
    obtain ⟨fuel, rfl⟩ := Nat.exists_eq_add_one_of_ne_zero (Nat.ne_zero_of_lt enough)
    have ends : s.links.get place = none := path
    unfold checkFrom
    rw [Prog.bind_done (get_run s), ends]
    rfl
  | cons mh rest ih =>
    obtain ⟨fuel, rfl⟩ := Nat.exists_eq_add_one_of_ne_zero (Nat.ne_zero_of_lt enough)
    obtain ⟨here, path⟩ := path
    obtain ⟨chunk, asked, held, sealed⟩ := areas mh List.mem_cons_self
    have back : chunk.back = place := Option.some.inj ((congrArg (Option.map Chunk.back) held).symm.trans backed.1)
    have more : checkFrom fuel (.after mh) s = .done () s :=
      ih path backed.2 (fun other member => areas other (List.mem_cons_of_mem _ member)) (Nat.lt_of_succ_lt_succ enough)
    unfold checkFrom
    rw [Prog.bind_done (get_run s), here]
    refine (Prog.bind_done (header_run held)).trans
      ((Prog.bind_done (ensure_run (decide_eq_true sealed.magic) _ _)).trans ?_)
    refine (Prog.bind_done (ensure_run (decide_eq_true sealed.freeFile) _ _)).trans ?_
    refine (Prog.bind_done (ensure_run (decide_eq_true sealed.freeLine) _ _)).trans ?_
    exact (Prog.bind_done (ensure_run (decide_eq_true back) _ _)).trans
      ((Prog.bind_done (sealed.tail held _)).trans more)

theorem Intact.checks (intact : Intact s live nodes) : myCheck (nodes.length + 1) s = .done () s := by
  refine checkFrom_run intact.chains.leads intact.backed (fun mh member => ?_) (Nat.lt_succ_self _)
  obtain ⟨asked, here⟩ := Option.ne_none_iff_exists'.mp ((intact.listed mh).mp member)
  obtain ⟨chunk, held, sealed⟩ := intact.areas mh asked here
  exact ⟨chunk, asked, held, sealed⟩

/-- The counter reaches a limit that it can hold. -/
theorem junk_some {limit : Size} (small : limit.toNat < 2 ^ 32) {i : UInt32} {data : List UInt8}
    (left : i.toNat + data.length = limit.toNat) :
    ∃ scribbled, junk limit i data = some scribbled := by
  induction data generalizing i with
  | nil =>
    have stops : ¬ i.toUInt64 < limit := by
      rw [UInt64.lt_iff_toNat_lt, UInt32.toNat_toUInt64]
      simp at left
      omega
    exact ⟨[], if_neg stops⟩
  | cons byte rest ih =>
    rw [List.length_cons] at left
    have goes : i.toUInt64 < limit := by
      rw [UInt64.lt_iff_toNat_lt, UInt32.toNat_toUInt64]
      omega
    have next : (i + 1).toNat = i.toNat + 1 := by
      rw [UInt32.toNat_add]
      exact Nat.mod_eq_of_lt (by change i.toNat + 1 < _; omega)
    have less : (i + 1).toNat + rest.length = limit.toNat := by omega
    obtain ⟨scribbled, same⟩ := ih less
    refine ⟨i.toUInt8 :: scribbled, (if_pos goes).trans ?_⟩
    rw [same]
    rfl

/-- It never reaches another one: it starts again at zero and leaves the block. -/
theorem junk_none {limit : Size} (large : 2 ^ 32 ≤ limit.toNat) (i : UInt32) (data : List UInt8) :
    junk limit i data = none := by
  have goes : ∀ i : UInt32, i.toUInt64 < limit := by
    intro i
    have bound := i.toNat_lt
    rw [UInt64.lt_iff_toNat_lt, UInt32.toNat_toUInt64]
    omega
  induction data generalizing i with
  | nil => exact if_pos (goes i)
  | cons byte rest ih =>
    refine (if_pos (goes i)).trans ?_
    rw [ih]
    rfl

/-- my_free up to the loop over the area. -/
theorem myFree_begins (intact : Intact s live nodes) (here : live mh = some asked) (file : String) (line : Int) :
    ∃ marked rest, myFree (some mh) file line s = (do scribble mh; .modify (·.put mh none) : Action Unit) marked ∧
      marked.links.Chains rest ∧ Backed marked.back .head rest ∧ (∀ other, other ∈ rest ↔ other ∈ nodes ∧ other ≠ mh) ∧
      (∃ chunk, marked.heap mh = some chunk ∧ chunk.size.toNat = asked ∧ chunk.data.length = asked + 16) ∧
      ∀ other, other ≠ mh → marked.body other = s.body other := by
  obtain ⟨chunk, held, sealed⟩ := intact.areas mh asked here
  obtain ⟨front, rest, shape⟩ := List.append_of_mem ((intact.listed mh).mpr (by rw [here]; exact nofun))
  subst shape
  obtain ⟨unlinked, links, bodies, chains, backed⟩ :=
    unlink_spec intact.chains intact.backed fun other member => intact.used member
  obtain ⟨other, now, still⟩ := Store.body_sealed bodies held sealed
  obtain ⟨area, size, data⟩ := still.data
  let marked := unlinked.edit mh fun chunk =>
    { chunk with magic := MAGIC_FREE, freeFile := some file, freeLine := line }
  have sameLinks : marked.links = unlinked.links := Store.edit_links fun _ => rfl
  have sameBack : marked.back = unlinked.back := Store.edit_back fun _ => rfl
  have ran : myFree (some mh) file line s = (do scribble mh; .modify (·.put mh none) : Action Unit) marked := by
    unfold myFree
    refine (Prog.bind_done (header_run held)).trans
      ((Prog.bind_done (ensure_run (decide_eq_true sealed.magic) _ _)).trans ?_)
    refine (Prog.bind_done (sealed.tail held _)).trans ((Prog.bind_done links).trans ?_)
    exact Prog.bind_done (setHeader_run (by rw [now]; rfl))
  have marks : marked.heap mh = some { other with magic := MAGIC_FREE, freeFile := some file, freeLine := line } := by
    simp [marked, Store.edit, now]
  refine ⟨marked, front ++ rest, ran, sameLinks ▸ chains, sameBack ▸ backed, fun node => ?_,
    ⟨_, marks, still.size, ?_⟩, fun node different => ?_⟩
  · have nodup := intact.chains.nodup
    rw [List.nodup_append] at nodup
    have apart : mh ∉ front := fun inside => nodup.2.2 mh inside mh List.mem_cons_self rfl
    have apart' : mh ∉ rest := (List.nodup_cons.mp nodup.2.1).1
    simp only [List.mem_append, List.mem_cons]
    constructor
    · rintro (inside | inside)
      · exact ⟨.inl inside, fun same => apart (same ▸ inside)⟩
      · exact ⟨.inr (.inr inside), fun same => apart' (same ▸ inside)⟩
    · rintro ⟨inside | same | inside, different⟩
      · exact .inl inside
      · exact absurd same different
      · exact .inr inside
  · change other.data.length = _
    rw [data, List.length_append, size]
    rfl
  · have here : marked.heap node = unlinked.heap node := Store.put_of_ne different _
    exact (congrArg (Option.map Chunk.body) here).trans (congrFun bodies node)

theorem limit_toNat {size : Size} (sized : size.toNat = asked) (fits : asked + 80 < 2 ^ 64) :
    (size + 16).toNat = asked + 16 := by
  rw [UInt64.toNat_add, sized]
  change (asked + 16) % 2 ^ 64 = _
  omega

/-- An area of less than four gigabytes is given back. -/
theorem myFree_spec (intact : Intact s live nodes) (here : live mh = some asked) (small : asked + 16 < 2 ^ 32)
    (file : String) (line : Int) :
    ∃ after rest, myFree (some mh) file line s = .done () after ∧ Intact after (Function.update live mh none) rest ∧
      ∀ other, other ≠ mh → after.data other = s.data other := by
  obtain ⟨marked, rest, begins, chains, backed, listed, ⟨chunk, held, size, length⟩, others⟩ :=
    myFree_begins intact here file line
  have limit : (chunk.size + 16).toNat = asked + 16 := limit_toNat size (by omega)
  have left : (0 : UInt32).toNat + chunk.data.length = (chunk.size + 16).toNat := by
    rw [limit, length]
    exact Nat.zero_add _
  obtain ⟨scribbled, ends⟩ := junk_some (limit.trans_lt small) left
  let gone := (marked.edit mh fun chunk => { chunk with data := scribbled }).put mh none
  have ran : myFree (some mh) file line s = .done () gone := by
    have scribbles : scribble mh marked = .done () (marked.edit mh fun chunk => { chunk with data := scribbled }) := by
      unfold scribble
      refine (Prog.bind_done (header_run held)).trans ?_
      rw [ends]
      exact setHeader_run (by rw [held]; rfl)
    rw [begins]
    exact Prog.bind_done scribbles
  have same : ∀ other, other ≠ mh → gone.heap other = marked.heap other := fun other different =>
    (Store.put_of_ne different _).trans (Store.put_of_ne different _)
  have inside : ∀ other ∈ rest, gone.heap other = marked.heap other := fun other member =>
    same other ((listed other).mp member).2
  refine ⟨gone, rest, ran, ⟨chains_congr chains rfl inside, backed_congr backed inside, fun other => ?_,
    fun other amount there => ?_⟩, ?_⟩
  · rw [listed, intact.listed]
    by_cases self : other = mh
    · simp [self]
    · simp [self]
  · have self : other ≠ mh := by
      rintro rfl
      rw [Function.update_self] at there
      cases there
    rw [Function.update_of_ne self] at there
    obtain ⟨chunk, held, sealed⟩ := intact.areas other amount there
    have body : gone.body other = s.body other :=
      (congrArg (Option.map Chunk.body) (same other self)).trans (others other self)
    unfold Store.body at body
    rw [held] at body
    obtain ⟨chunk', held', same⟩ := Option.map_eq_some_iff.mp body
    exact ⟨chunk', held', sealed.congr same⟩
  · intro other different
    have body : gone.body other = s.body other :=
      (congrArg (Option.map Chunk.body) (same other different)).trans (others other different)
    have data := congrArg (Option.map Chunk.data) body
    simpa [Store.body, Store.data, Chunk.body, Function.comp_def] using data

/-- Larger areas are not: the loop runs over the end of the block. -/
theorem myFree_wild (intact : Intact s live nodes) (here : live mh = some asked) (large : 2 ^ 32 ≤ asked + 16)
    (fits : asked + 80 < 2 ^ 64)
    (file : String) (line : Int) : ∃ after, myFree (some mh) file line s = .halted .wild after := by
  obtain ⟨marked, _, begins, _, _, _, ⟨chunk, held, size, _⟩, _⟩ := myFree_begins intact here file line
  have limit : (chunk.size + 16).toNat = asked + 16 := limit_toNat size fits
  have scribbles : scribble mh marked = .halted .wild marked := by
    unfold scribble
    refine (Prog.bind_done (header_run held)).trans ?_
    rw [junk_none (limit ▸ large)]
    rfl
  exact ⟨marked, begins.trans (Prog.bind_halted scribbles)⟩

def Copied (s after : Store) (old new : Addr) (count : Nat) : Prop :=
  ∃ area area', s.data old = some area ∧ after.data new = some area' ∧ count ≤ area'.length ∧
    area'.take count = area.take count

theorem myRealloc_spec (intact : Intact s live nodes) (here : live mh = some asked)
    (small : asked + 16 < 2 ^ 32) {block : Block} {size : Size}
    (free : s.heap block.addr = none) (length : block.bytes.length = (blockSize size).toNat)
    (fits : size.toNat + 80 < 2 ^ 64)
    (file : String) (line : Int) : ∃ after rest, myRealloc block (some mh) size file line s = .done () after ∧
      Intact after (Function.update (Function.update live mh none) block.addr (some size.toNat)) rest ∧
      Copied s after mh block.addr (min asked size.toNat) := by
  obtain ⟨chunk, held, sealed⟩ := intact.areas mh asked here
  have different : mh ≠ block.addr := by
    rintro rfl
    cases free.symm.trans held
  obtain ⟨grown, allocates, intact', kept⟩ := doAlloc_spec intact free length fits
  have still : Function.update live block.addr (some size.toNat) mh = some asked :=
    (Function.update_of_ne different ..).trans here
  obtain ⟨old, held', sealed'⟩ := intact'.areas mh asked still
  obtain ⟨new, placed, sealedNew⟩ := intact'.areas block.addr size.toNat (Function.update_self ..)
  let total := if old.size > size then size else old.size
  have count : total.toNat = min asked size.toNat := by
    have same : old.size.toNat = asked := sealed'.size
    by_cases more : old.size > size
    · have less : size.toNat < old.size.toNat := more
      rw [show total = size from if_pos more]
      omega
    · have less : old.size.toNat ≤ size.toNat := UInt64.not_lt.mp more
      rw [show total = old.size from if_neg more]
      omega
  have room : ∀ {chunk : Chunk} {asked : Nat}, Sealed chunk asked → total.toNat ≤ asked →
      total.toNat ≤ chunk.data.length := by
    intro chunk asked sealed fits
    obtain ⟨area, size, data⟩ := sealed.data
    rw [data, List.length_append]
    omega
  have readable : total.toNat ≤ old.data.length := room sealed' (by omega)
  have read := bytesAt_run held' ((Nat.zero_add _).trans_le readable)
  let bytes := (old.data.drop 0).take total.toNat
  have copies : bytes.length = total.toNat := List.length_take_of_le readable
  obtain ⟨written, writes, intact'', area, others⟩ :=
    intact'.write (Function.update_self ..) (show 0 + bytes.length ≤ size.toNat by omega)
  obtain ⟨after, rest, frees, last, kept'⟩ := myFree_spec intact'' still small file line
  refine ⟨after, rest, ?_, Function.update_comm different _ _ _ ▸ last, ?_⟩
  · unfold myRealloc
    refine (Prog.bind_done (header_run held)).trans
      ((Prog.bind_done (ensure_run (decide_eq_true sealed.magic) _ _)).trans ?_)
    refine (Prog.bind_done allocates).trans ((Prog.bind_done (header_run held')).trans ((Prog.bind_done read).trans ?_))
    exact (Prog.bind_done writes).trans frees
  · have source : old.data = chunk.data := by
      have same := kept mh different
      unfold Store.data at same
      rw [held, held'] at same
      exact Option.some.inj same
    refine ⟨chunk.data, overwrite new.data 0 bytes, congrArg (Option.map Chunk.data) held, ?_, ?_, ?_⟩
    · rw [kept' block.addr different.symm, area]
      unfold Store.data
      rw [placed]
      rfl
    · rw [← count]
      simp [overwrite, copies]
    · rw [← count]
      simp only [overwrite, List.take_zero, List.nil_append]
      rw [List.take_append_of_le_length copies.ge, List.take_of_length_le copies.le, ← source]
      exact congrArg (List.take total.toNat) (List.drop_zero ..)

end Egos.Myalloc
