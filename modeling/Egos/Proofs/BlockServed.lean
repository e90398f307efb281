import Egos.Grass.BlockStack
import Mathlib.Data.List.GetD

/-! What a client gets from a block server is what the stores in the table of the server return. -/

namespace Egos.BlockClient
open Library Blocksvr
open Files (DataBlock PAGESIZE wordAt wordAt_bytesOf)
open Grass (Pid bytesOf)
open Disk (BLOCK_SIZE)
open Blkfile (MAX_INODES)

variable {ε κ : Type} {Op : Type} {Answer : Op → Type} {nInodes : Nat}

/-! The wire formats. -/

theorem request_length (type ino offset : UInt32) : (request type ino offset).length = requestSize := rfl

/-- A request is found in the buffer as it was sent. -/
theorem decode_request (type ino offset : UInt32) (data : List UInt8) (fits : data.length ≤ BLOCK_SIZE) :
    BlockRequest.decode (request type ino offset ++ data) =
        some ({ type := .ofCode type, ino, offsetNblock := offset }, data) := by
  have whole : (request type ino offset ++ data).take (pointerSize + PAGESIZE) = request type ino offset ++ data := by
    apply List.take_of_length_le
    rw [List.length_append, request_length]
    unfold requestSize pointerSize PAGESIZE
    unfold BLOCK_SIZE at fits
    omega
  have enough : ¬ (request type ino offset ++ data).length < requestSize := by
    rw [List.length_append, request_length]
    omega
  have split : request type ino offset ++ data = bytesOf type ++ (bytesOf ino ++ (bytesOf offset ++ data)) := by
    simp only [request, List.append_assoc]
  have first : wordAt (request type ino offset ++ data) 0 = type := by
    rw [split]
    exact wordAt_bytesOf [] type _
  have second : wordAt (request type ino offset ++ data) 4 = ino := by
    rw [split]
    exact wordAt_bytesOf (bytesOf type) ino _
  have third : wordAt (request type ino offset ++ data) 8 = offset := by
    rw [split, ← List.append_assoc]
    exact wordAt_bytesOf (bytesOf type ++ bytesOf ino) offset data
  unfold BlockRequest.decode
  simp only [whole, enough, if_false, first, second, third]
  rw [List.drop_left' (request_length type ino offset)]

theorem encode_length (reply : BlockReply) :
    (encode reply).length = replySize + (if reply.data.isSome then BLOCK_SIZE else 0) := by
  unfold encode
  cases reply.data with
  | none => rfl
  | some data =>
    rw [List.length_append, List.length_ofFn]
    rfl

theorem encode_status (reply : BlockReply) :
    wordAt (encode reply) 0 = match reply.status with | .ok => BLOCK_OK | .error => BLOCK_ERROR := by
  unfold encode
  rw [List.append_assoc]
  exact wordAt_bytesOf [] _ _

theorem encode_size (reply : BlockReply) : wordAt (encode reply) 4 = reply.sizeNblock := by
  unfold encode
  rw [List.append_assoc]
  exact wordAt_bytesOf (bytesOf _) reply.sizeNblock _

theorem encode_data {reply : BlockReply} {data : DataBlock} (holds : reply.data = some data) (i : Fin BLOCK_SIZE) :
    (encode reply).getD (replySize + i) 0 = data i := by
  unfold encode
  rw [holds]
  refine (List.getD_append_right _ _ _ _ (Nat.le_add_right replySize i.val)).trans ?_
  refine (congrArg (fun j => (List.ofFn data).getD j 0) (Nat.add_sub_cancel_left replySize i.val)).trans ?_
  rw [List.getD_eq_getElem?_getD, List.getElem?_ofFn]
  simp

/-! What the client gets to know of a reply. -/

private theorem answer_sent (src : Pid) (repsize : Nat) (reply : BlockReply) :
    answer src repsize [(src, reply)] = some ((encode reply).take repsize) := by
  unfold answer
  rw [List.find?_cons_of_pos (by simp)]
  rfl

private theorem wordAt_take {bytes : List UInt8} {count index : Nat} (inside : index + 4 ≤ count) :
    wordAt (bytes.take count) index = wordAt bytes index := by
  have byte : ∀ k < 4, (bytes.take count).getD (index + k) 0 = bytes.getD (index + k) 0 := by
    intro k small
    rw [List.getD_eq_getElem?_getD, List.getElem?_take_of_lt (by omega), List.getD_eq_getElem?_getD]
  have zero := byte 0 (by decide)
  rw [Nat.add_zero] at zero
  unfold wordAt
  rw [zero, byte 1 (by decide), byte 2 (by decide), byte 3 (by decide)]

private theorem encode_take (reply : BlockReply) (count : Nat) :
    ((encode reply).take (replySize + count)).length =
      replySize + min count (if reply.data.isSome then BLOCK_SIZE else 0) := by
  rw [List.length_take, encode_length, Nat.add_min_add_left]

theorem readReply_answer (src : Pid) (reply : BlockReply) :
    readReply (answer src (replySize + BLOCK_SIZE) [(src, reply)]) = match reply.status with | .ok => reply.data | .error => none := by
  rw [answer_sent]
  unfold readReply
  cases holds : reply.data with
  | none =>
    have short : ((encode reply).take (replySize + BLOCK_SIZE)).length < replySize + BLOCK_SIZE := by
      rw [encode_take, holds]
      exact Nat.add_lt_add_left (by decide) _
    simp only [short, if_true]
    cases reply.status <;> rfl
  | some data =>
    have whole : (encode reply).take (replySize + BLOCK_SIZE) = encode reply := by
      apply List.take_of_length_le
      rw [encode_length, holds]
      exact le_refl _
    have enough : ¬ (encode reply).length < replySize + BLOCK_SIZE := by
      rw [encode_length, holds]
      exact Nat.lt_irrefl _
    simp only [whole, enough, if_false, encode_status, encode_data holds]
    cases reply.status <;> rfl

theorem statusReply_answer (src : Pid) (reply : BlockReply) :
    statusReply (answer src replySize [(src, reply)]) = match reply.status with | .ok => true | .error => false := by
  have size := encode_take reply 0
  rw [answer_sent]
  unfold statusReply
  rw [Nat.add_zero] at size
  simp only [size, wordAt_take (show 0 + 4 ≤ replySize by decide), encode_status]
  cases reply.status <;> rfl

theorem sizeReply_answer (src : Pid) (reply : BlockReply) :
    sizeReply (answer src replySize [(src, reply)]) = match reply.status with | .ok => some reply.sizeNblock | .error => none := by
  have size := encode_take reply 0
  rw [answer_sent]
  unfold sizeReply
  rw [Nat.add_zero] at size
  simp only [size, wordAt_take (show 0 + 4 ≤ replySize by decide),
    wordAt_take (show 4 + 4 ≤ replySize by decide), encode_status, encode_size]
  cases reply.status <;> rfl

/-- What a call of shared/block.c comes to when the server handles it. -/
def Table.direct (table : Table Answer ε κ nInodes) (stops : Files.Halt → ε) :
    Layer BlockCall.Reply Answer ε κ := fun call own =>
  let at_ {α : Type} (ino : UInt32) (refused : α) (method : Fin nInodes → Effect Answer ε (α × κ)) :
      Effect Answer ε (α × κ) :=
    if MAX_INODES ≤ ino.toNat then pure (refused, own)
    else if inside : ino.toNat < nInodes then method ⟨ino.toNat, inside⟩
    else .halt (stops (.outOfBounds "inodes"))
  match call with
  | .read ino offset => at_ ino none fun virt => table.read virt offset own
  | .write ino offset data => at_ ino false fun virt => table.write virt offset data own
  | .getsize ino => at_ ino none fun virt => table.nblocks virt own >>= fun (size, last) => pure (some size, last)
  | .setsize ino nblocks => at_ ino false fun virt => table.setsize virt nblocks own

section Served
variable (table : Table Answer ε κ nInodes) (stops : Files.Halt → ε) (src : Pid) (own : κ)

/-- How the handler of a request goes through the table. -/
private theorem server_run {msg : List UInt8} {repsize : Nat} {req : BlockRequest} {data : List UInt8}
    (decoded : BlockRequest.decode msg = some (req, data)) :
    table.server stops src { msg, repsize } own =
      ((handle req data src).renameHalts stops).through table.serve (own, []) >>=
      fun ((), last, sent) => pure (answer src repsize sent, last) := by
  unfold Table.server serve
  simp only [decoded]

/-- What the client does with the reply to a request, when the server has gone through its handler. -/
private theorem reply_served {α : Type} {msg : List UInt8} {repsize : Nat} {req : BlockRequest} {data : List UInt8}
    (decoded : BlockRequest.decode msg = some (req, data)) (known : Option (List UInt8) → α) :
    (rpc msg repsize >>= fun reply => pure (known reply, ())).through (table.server stops src) own =
      ((handle req data src).renameHalts stops).through table.serve (own, []) >>= fun ((), last, sent) =>
        pure ((known (answer src repsize sent), ()), last) := by
  change (table.server stops src { msg, repsize } own >>= fun reply => pure ((known reply.1, ()), reply.2)) = _
  rw [server_run table stops src own decoded, Effect.bind_assoc]
  rfl

private theorem call_served {sent : List (Pid × BlockReply)} (c : Call nInodes)
    (next : c.Reply → BlockServer nInodes Unit) :
    ((call c >>= next).renameHalts stops).through table.serve (own, sent) =
      table.serve c (own, sent) >>= fun (reply, last) => ((next reply).renameHalts stops).through table.serve last :=
        rfl

private abbrev back {α : Type} (value : α) (last : κ) : Effect Answer ε ((α × Unit) × κ) := pure ((value, ()), last)

private theorem read_served (ino offset : UInt32) :
    (blockCalls (.read ino offset) ()).through (table.server stops src) own =
      table.direct stops (.read ino offset) own >>= fun (reply, last) => back reply last := by
  have decoded := decode_request BLOCK_READ ino offset [] (Nat.zero_le _)
  rw [List.append_nil] at decoded
  refine (reply_served table stops src own decoded readReply).trans ?_
  change ((blockDoRead { type := .read, ino, offsetNblock := offset } src).renameHalts stops).through table.serve
    (own, []) >>= _ = _
  unfold blockDoRead Table.direct inode
  dsimp only
  by_cases big : MAX_INODES ≤ ino.toNat
  · rw [if_pos big, if_pos big]
    exact congrArg (back · own) (readReply_answer src { status := .error, sizeNblock := 0, data := none })
  · rw [if_neg big, if_neg big]
    by_cases inside : ino.toNat < nInodes
    · rw [dif_pos inside, dif_pos inside]
      rw [Effect.pure_bind, call_served]
      simp only [Table.serve, Effect.bind_assoc, Effect.pure_bind]
      congr 1
      funext (block, last)
      cases block with
      | none => exact congrArg (back · last) (readReply_answer src { status := .error, sizeNblock := 0, data := none })
      | some block =>
        exact congrArg (back · last) (readReply_answer src { status := .ok, sizeNblock := 1, data := some block })
    · rw [dif_neg inside, dif_neg inside]
      rfl

private theorem write_served (ino offset : UInt32) (data : DataBlock) :
    (blockCalls (.write ino offset data) ()).through (table.server stops src) own =
      table.direct stops (.write ino offset data) own >>= fun (reply, last) => back reply last := by
  have size : (List.ofFn data).length = BLOCK_SIZE := List.length_ofFn
  have decoded := decode_request BLOCK_WRITE ino offset _ (le_of_eq size)
  refine (reply_served table stops src own decoded statusReply).trans ?_
  change ((blockDoWrite { type := .write, ino, offsetNblock := offset } (List.ofFn data) src).renameHalts stops).through
    table.serve (own, []) >>= _ = _
  have one : ¬ dataBlocks (List.ofFn data) ≠ 1 := by
    unfold dataBlocks
    rw [size, Nat.div_self (by decide)]
    exact fun differs => differs rfl
  have same : (fun i : Fin BLOCK_SIZE => (List.ofFn data).getD i 0) = data := by
    funext i
    simp [List.getD_eq_getElem?_getD]
  unfold blockDoWrite Table.direct inode
  dsimp only
  by_cases big : MAX_INODES ≤ ino.toNat
  · rw [if_pos big, if_pos big]
    exact congrArg (back · own) (statusReply_answer src { status := .error, sizeNblock := 0, data := none })
  · rw [if_neg big, if_neg big, if_neg one, same]
    by_cases inside : ino.toNat < nInodes
    · rw [dif_pos inside, dif_pos inside]
      rw [Effect.pure_bind, call_served]
      simp only [Table.serve, Effect.bind_assoc, Effect.pure_bind]
      refine congrArg (Bind.bind (table.write ⟨ino.toNat, inside⟩ offset data own)) ?_
      funext (success, last)
      cases success with
      | false =>
        exact congrArg (back · last) (statusReply_answer src { status := .error, sizeNblock := 0, data := none })
      | true => exact congrArg (back · last) (statusReply_answer src { status := .ok, sizeNblock := 0, data := none })
    · rw [dif_neg inside, dif_neg inside]
      rfl

private theorem getsize_served (ino : UInt32) :
    (blockCalls (.getsize ino) ()).through (table.server stops src) own =
      table.direct stops (.getsize ino) own >>= fun (reply, last) => back reply last := by
  have decoded := decode_request BLOCK_GETSIZE ino 0 [] (Nat.zero_le _)
  rw [List.append_nil] at decoded
  refine (reply_served table stops src own decoded sizeReply).trans ?_
  change ((blockDoGetsize { type := .getsize, ino, offsetNblock := 0 } src).renameHalts stops).through table.serve
    (own, []) >>= _ = _
  unfold blockDoGetsize Table.direct inode
  dsimp only
  by_cases big : MAX_INODES ≤ ino.toNat
  · rw [if_pos big, if_pos big]
    exact congrArg (back · own) (sizeReply_answer src { status := .error, sizeNblock := 0, data := none })
  · rw [if_neg big, if_neg big]
    by_cases inside : ino.toNat < nInodes
    · rw [dif_pos inside, dif_pos inside]
      rw [Effect.pure_bind, call_served]
      simp only [Table.serve, Effect.bind_assoc, Effect.pure_bind]
      congr 1
      funext (size, last)
      exact congrArg (back · last) (sizeReply_answer src { status := .ok, sizeNblock := size, data := none })
    · rw [dif_neg inside, dif_neg inside]
      rfl

private theorem setsize_served (ino nblocks : UInt32) :
    (blockCalls (.setsize ino nblocks) ()).through (table.server stops src) own =
      table.direct stops (.setsize ino nblocks) own >>= fun (reply, last) => back reply last := by
  have decoded := decode_request BLOCK_SETSIZE ino nblocks [] (Nat.zero_le _)
  rw [List.append_nil] at decoded
  refine (reply_served table stops src own decoded statusReply).trans ?_
  change ((blockDoSetsize { type := .setsize, ino, offsetNblock := nblocks } src).renameHalts stops).through table.serve
    (own, []) >>= _ = _
  unfold blockDoSetsize Table.direct inode
  dsimp only
  by_cases big : MAX_INODES ≤ ino.toNat
  · rw [if_pos big, if_pos big]
    exact congrArg (back · own) (statusReply_answer src { status := .error, sizeNblock := 0, data := none })
  · rw [if_neg big, if_neg big]
    by_cases inside : ino.toNat < nInodes
    · rw [dif_pos inside, dif_pos inside]
      rw [Effect.pure_bind, call_served]
      simp only [Table.serve, Effect.bind_assoc, Effect.pure_bind]
      congr 1
      funext (success, last)
      cases success with
      | false =>
        exact congrArg (back · last) (statusReply_answer src { status := .error, sizeNblock := 0, data := none })
      | true => exact congrArg (back · last) (statusReply_answer src { status := .ok, sizeNblock := 0, data := none })
    · rw [dif_neg inside, dif_neg inside]
      rfl

/-- A client of a block server gets what the stores of the table return. -/
theorem calls_served (call : BlockCall) :
    (blockCalls call ()).through (table.server stops src) own = table.direct stops call own >>=
        fun (reply, last) => pure ((reply, ()), last) := by
  cases call with
  | read ino offset => exact read_served table stops src own ino offset
  | write ino offset data => exact write_served table stops src own ino offset data
  | getsize ino => exact getsize_served table stops src own ino
  | setsize ino nblocks => exact setsize_served table stops src own ino nblocks

end Served

/-- On top of any service, the client and the server of a table cannot be told from the table. -/
theorem server_direct {σ : Type} (table : Table Answer ε κ nInodes) (stops : Files.Halt → ε) (src : Pid)
    (below : Service Answer ε σ) :
    Simulates (fun _ => True) (fun s t => s = ((), t)) (blockCalls.over ((table.server stops src).over below))
        ((table.direct stops).over below) := by
  rintro call - _ ⟨own, s⟩ rfl
  have ran := Effect.through_run (table.server stops src) below (blockCalls call ()) own s
  rw [calls_served, Effect.run_bind] at ran
  cases served : (table.direct stops call own).run below s with
  | done value after =>
    obtain ⟨reply, last⟩ := value
    rw [Prog.bind_done served] at ran
    rw [Layer.over_done served, Layer.over_done ran]
    exact ⟨rfl, rfl⟩
  | halted reason after =>
    rw [Prog.bind_halted served] at ran
    obtain ⟨last, ran⟩ := ran
    rw [Layer.over_halted served, Layer.over_halted ran]
    rfl

end Egos.BlockClient
