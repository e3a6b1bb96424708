import SpresenseOpus.Worker.Peer

/-!
# Which addresses the worker reads and sends back

`mpmq_receive` returns a negative error code, with the message word left at zero, or a message
identifier whose lowest bit says whether the word is an address. The loop only looks at that bit, in
the two's complement of an error code as well, and sends a reply with the word whatever it is. So
half of the error codes are read through as if they were addresses, and errors and values are sent
back as addresses. The worker reads and sends back exactly the addresses received when every result
is a message of address type and every command is gone through (`disciplined_iff_addresses`).
-/

namespace SpresenseOpus.Worker

open Machine

/-- `Wien2::Apu::CommonMode`. -/
def CommonMode : UInt8 := 0

/-- `COMMAND_DATATYPE_VALUE`. -/
def COMMAND_DATATYPE_VALUE : UInt8 := 1

/-- `DSP_OPUSENC_VERSION`. -/
def DSP_OPUSENC_VERSION : UInt32 := 0x010306

/-- The message that `__main` sends before it enters the loop. -/
def bootComplete : Reply :=
  { msg_id := creMsgid CommonMode COMMAND_DATATYPE_VALUE, msg_data := DSP_OPUSENC_VERSION
    handled := none }

/-- `mpmq_receive` has returned a message of address type. -/
def Message.IsAddress (m : Message) : Prop := 0 ≤ m.command ∧ m.type = COMMAND_DATATYPE_ADDRESS

/-- The loop reads a command structure through the word of a message: the test in front of
`dispatch`. -/
def Message.IsRead (m : Message) : Prop := m.type = COMMAND_DATATYPE_ADDRESS

/-- A message that is sent is of address type. -/
def Reply.IsAddress (r : Reply) : Prop :=
  r.msg_id &&& MSGID_DATATYPE_MASK = COMMAND_DATATYPE_ADDRESS

instance (m : Message) : Decidable m.IsAddress := inferInstanceAs (Decidable (_ ∧ _))

instance (m : Message) : Decidable m.IsRead := inferInstanceAs (Decidable (_ = _))

instance (r : Reply) : Decidable r.IsAddress := inferInstanceAs (Decidable (_ = _))

section Receive

variable {ε σ : Type} (b : Build ε σ)

/-- The messages that the worker takes of what `mpmq_receive` has to return. -/
def taken (ms : List Message) : List Message := (visits (handle b) ms boot).map Prod.snd

/-- The addresses among the messages taken. -/
def received (ms : List Message) : List UInt32 :=
  ((taken b ms).filter fun m => m.IsAddress).map Message.msgdata

/-- The words through which the loop reads a command structure. -/
def dereferenced (ms : List Message) : List UInt32 :=
  ((taken b ms).filter fun m => m.IsRead).map Message.msgdata

/-- All messages that the worker sends. -/
def sent (ms : List Message) : List Reply := bootComplete :: (run (handle b) ms boot).replies

/-- The words that the worker sends as addresses after the message of boot. -/
def sentBack (ms : List Message) : List UInt32 :=
  (((sent b ms).drop 1).filter fun r => r.IsAddress).map Reply.msg_data

/-- What is asked of the worker for results of `mpmq_receive`: the words that it reads through and
those that it sends back as addresses are the addresses received, and a result that is no address
leads to neither. -/
structure Disciplined (ms : List Message) : Prop where
  reads : dereferenced b ms = received b ms
  replies : sentBack b ms = received b ms
  others : ∀ v ∈ visits (handle b) ms boot, ¬ v.2.IsAddress → ¬ v.2.IsRead ∧
    ∀ r w', (handle b v.2).run v.1 = .ok r w' → ¬ r.IsAddress

variable {b}

/-- What `reply_to_spu` sends is of address type. -/
theorem isAddress_replyToSpu (addr : UInt32) (h : Option Handled) :
    (replyToSpu addr h).IsAddress := by
  show creMsgid EncMode COMMAND_DATATYPE_ADDRESS &&& MSGID_DATATYPE_MASK =
    COMMAND_DATATYPE_ADDRESS
  decide

/-- Every message that is answered is answered by `reply_to_spu` with its own word. -/
theorem exists_replyToSpu {w w' : Globals ε σ} {m : Message} {r : Reply}
    (hrun : (handle b m).run w = .ok r w') : ∃ h, r = replyToSpu m.msgdata h := by
  cases Turn.of_run hrun with
  | value => exact ⟨_, rfl⟩
  | other => exact ⟨_, rfl⟩
  | initAgain => exact ⟨_, rfl⟩
  | initPlain => exact ⟨_, rfl⟩
  | initOgg => exact ⟨_, rfl⟩
  | execRejected => exact ⟨_, rfl⟩
  | execPlain => exact ⟨_, rfl⟩
  | execOgg => exact ⟨_, rfl⟩
  | flushPlain => exact ⟨_, rfl⟩
  | flushOgg => exact ⟨_, rfl⟩

variable (b)

/-- All replies of a run are of address type. -/
theorem isAddress_replies (ms : List Message) :
    ∀ r ∈ (run (handle b) ms boot).replies, r.IsAddress := by
  refine run_invariant (P := fun (rs : List Reply) _ => ∀ r ∈ rs, r.IsAddress)
    (fun rs m w r w' h hrun => ?_)
    (fun _ _ _ _ _ h _ => h) ms [] boot (by simp)
  obtain ⟨handled, rfl⟩ := exists_replyToSpu hrun
  intro r hr
  rcases List.mem_append.mp hr with hr | hr
  · exact h r hr
  · rw [List.mem_singleton.mp hr]
    exact isAddress_replyToSpu _ _

/-- The replies of a run that does not stop carry the words of its messages. -/
theorem replies_msg_data {ms : List Message} (hh : (run (handle b) ms boot).halt = none) :
    (run (handle b) ms boot).replies.map Reply.msg_data = ms.map Message.msgdata := by
  refine run_history_invariant
    (P := fun ns rs _ => rs.map Reply.msg_data = ns.map Message.msgdata)
    (fun ns rs m w r w' h hrun => ?_) ms [] [] boot rfl hh
  obtain ⟨handled, rfl⟩ := exists_replyToSpu hrun
  rw [List.map_append, List.map_append, h]
  rfl

/-- The words sent back are those of all replies. -/
theorem sentBack_eq (ms : List Message) :
    sentBack b ms = (run (handle b) ms boot).replies.map Reply.msg_data := by
  unfold sentBack sent
  rw [List.drop_one, List.tail_cons,
    List.filter_eq_self.mpr fun r hr => decide_eq_true (isAddress_replies b ms r hr)]

/-- A message that is not of address type is answered, and so sent back. -/
theorem isAddress_of_others {ms : List Message}
    (h : ∀ v ∈ visits (handle b) ms boot, ¬ v.2.IsAddress → ¬ v.2.IsRead ∧
      ∀ r w', (handle b v.2).run v.1 = .ok r w' → ¬ r.IsAddress) :
    ∀ v ∈ visits (handle b) ms boot, v.2.IsAddress := by
  intro v hv
  by_contra hno
  obtain ⟨hread, hreply⟩ := h v hv hno
  -- The branch for other types answers as well.
  have hk : v.2.kind = .value := by
    unfold Message.kind
    exact if_pos hread
  exact hreply _ _ (Turn.run_eq (.value hk)) (isAddress_replyToSpu _ _)

/-- For every sequence of results of `mpmq_receive`, the words that the worker reads through and
sends back are the addresses received, and nothing comes of the other results, if and only if no
command stops the worker and every result is a message of address type. -/
theorem disciplined_iff_addresses (ms : List Message) :
    Disciplined b ms ↔ (run (handle b) ms boot).halt = none ∧ ∀ m ∈ ms, m.IsAddress := by
  constructor
  · intro h
    have hall := isAddress_of_others b h.others
    have htaken : (taken b ms).filter (fun m => m.IsAddress) = taken b ms := by
      refine List.filter_eq_self.mpr fun m hm => ?_
      obtain ⟨v, hv, rfl⟩ := List.mem_map.mp hm
      exact decide_eq_true (hall v hv)
    -- There are as many replies as messages taken, so that none has stopped the worker.
    have hlen := congrArg List.length h.replies
    rw [sentBack_eq, received, htaken, taken, List.length_map, List.length_map, List.length_map,
      length_visits] at hlen
    have hhalt : (run (handle b) ms boot).halt = none := by
      cases hh : (run (handle b) ms boot).halt with
      | none => rfl
      | some x =>
        rw [hh] at hlen
        simp at hlen
    refine ⟨hhalt, fun m hm => ?_⟩
    rw [← map_snd_visits hhalt] at hm
    obtain ⟨v, hv, rfl⟩ := List.mem_map.mp hm
    exact hall v hv
  · rintro ⟨hhalt, hall⟩
    have htaken : taken b ms = ms := map_snd_visits hhalt
    have hreceived : received b ms = ms.map Message.msgdata := by
      rw [received, htaken, List.filter_eq_self.mpr fun m hm => decide_eq_true (hall m hm)]
    have hread : ∀ m ∈ ms, m.IsRead := fun m hm => (hall m hm).2
    refine ⟨?_, ?_, fun v hv hno => ?_⟩
    · rw [hreceived, dereferenced, htaken,
        List.filter_eq_self.mpr fun m hm => decide_eq_true (hread m hm)]
    · rw [hreceived, sentBack_eq, replies_msg_data b hhalt]
    · have hmem : v.2 ∈ ms := by
        rw [← map_snd_visits hhalt]
        exact List.mem_map_of_mem hv
      exact absurd (hall _ hmem) hno

end Receive

/-- An error that `mpmq_receive` returns with the word left at zero, in front of a memory whose
first bytes are no command for the encoder. -/
def receiveError (error : Int32) : Message where
  command := error
  msgdata := 0
  com_param := encCmd 0
  mem _ := 0

/-- An even error code is taken for an address: the loop reads through the null pointer and sends
it back. -/
theorem exists_not_disciplined :
    ∃ error : Int32, error < 0 ∧ received plainBuild [receiveError error] = [] ∧
      dereferenced plainBuild [receiveError error] = [0] ∧
      sentBack plainBuild [receiveError error] = [0] ∧
      ¬ Disciplined plainBuild [receiveError error] := by
  have hreceived : received plainBuild [receiveError (-22)] = [] := by decide +kernel
  have hread : dereferenced plainBuild [receiveError (-22)] = [0] := by decide +kernel
  refine ⟨-22, by decide, hreceived, hread, by decide +kernel, fun h => ?_⟩
  have heq := h.reads
  rw [hreceived, hread] at heq
  exact absurd heq (by simp)

end SpresenseOpus.Worker
