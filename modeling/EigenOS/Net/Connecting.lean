import EigenOS.Net.TcpDelivery

/-!
# Setting up a connection

`sys_connect` from its first SYN on, with segments arriving between any two of its steps.
All SYNs carry one number, success means that this number was acknowledged, and the first byte
follows it, exactly in the runs where nothing is sent again after the number has moved on and
the other side acknowledges nothing else.
-/

namespace EigenOS.Net

open EigenOS.Transition

/-- How `tcp_send_packet` ends.  A packet that waits for an address can count as failed. -/
inductive Sending where
  | sent
  | waiting
  | dropped
  deriving DecidableEq

/-- The packet has been handed on. -/
def Sending.handed : Sending → Bool
  | .sent => true
  | .waiting => true
  | .dropped => false

/-- Whether `tcp_send_packet` has returned 0. -/
def Sending.succeeded : Sending → Bool
  | .sent => true
  | .waiting => false
  | .dropped => false

/-- What `sys_connect` does next. -/
inductive ConnectPc where
  | sendSyn
  | advance (succeeded : Bool)
  | saveSeq
  | test
  | tick
  | restore
  | resend
  | verdict
  | returned (success : Bool)
  deriving DecidableEq

/-- The number of the SYN. -/
def initialSeq : UInt32 := 1000

/-- A socket in `sys_connect`, with the SYNs sent, the number that the accepted SYN/ACK
acknowledged, and the number of the first byte sent afterwards. -/
structure Connecting where
  socket : Socket
  pc : ConnectPc
  origSeq : UInt32
  timeout : ℕ
  synRetry : ℕ
  syns : List UInt32
  accepted : Option UInt32
  firstByte : Option UInt32

/-- A segment for the socket arrives, `sys_connect` goes on, or `sys_send` is called with at
least one byte. -/
inductive ConnectEvent where
  | segment (segment : TcpSegment)
  | step (sending : Sending)
  | send

namespace Connecting

/-- `sys_connect` before the first SYN.  `so_una` and `so_closed` are what they were. -/
def start (so : Socket) : Connecting where
  socket := { so with soState := .synSent, soSeq := initialSeq, soAck := 0 }
  pc := .sendSyn
  origSeq := 0
  timeout := 500
  synRetry := 8
  syns := []
  accepted := none
  firstByte := none

variable (c : Connecting)

def goTo (pc : ConnectPc) : Connecting := { c with pc := pc }

def setSeq (seq : UInt32) : Connecting := { c with socket := { c.socket with soSeq := seq } }

/-- A SYN goes out with the number of the socket. -/
def transmit (sending : Sending) : Connecting :=
  if sending.handed = true then { c with syns := c.syns ++ [c.socket.soSeq] } else c

def step (sending : Sending) : Connecting :=
  match c.pc with
  | .sendSyn => (c.transmit sending).goTo (.advance sending.succeeded)
  | .advance succeeded =>
      if succeeded = true then (c.setSeq (c.socket.soSeq + 1)).goTo .saveSeq else c.goTo .saveSeq
  | .saveSeq => { c with origSeq := c.socket.soSeq, pc := .test }
  | .test =>
      if c.socket.soState ≠ .established ∧ 0 < c.timeout ∧ c.socket.soClosed = false then
        c.goTo .tick
      else c.goTo .verdict
  | .tick =>
      if (c.timeout - 1) % 60 = 0 ∧ 0 < c.synRetry then
        { c with timeout := c.timeout - 1, synRetry := c.synRetry - 1, pc := .restore }
      else { c with timeout := c.timeout - 1, pc := .test }
  | .restore => (c.setSeq c.origSeq).goTo .resend
  | .resend => (c.transmit sending).goTo .test
  | .verdict => c.goTo (.returned (decide (c.socket.soState = .established)))
  | .returned _ => c

/-- The segment is the answer that the socket waits for. -/
def Establishes (segment : TcpSegment) : Prop :=
  segment.rst = false ∧ segment.syn = true ∧ segment.ack = true ∧ c.socket.soState = .synSent

instance (segment : TcpSegment) : Decidable (c.Establishes segment) :=
  inferInstanceAs (Decidable (_ ∧ _ ∧ _ ∧ _))

def receive (segment : TcpSegment) : Connecting :=
  { c with
    socket := tcpInput c.socket segment
    accepted := if c.Establishes segment then some segment.ackNumber else c.accepted }

def next : ConnectEvent → Connecting
  | .segment segment => c.receive segment
  | .step sending => c.step sending
  | .send =>
      if c.pc = .returned true ∧ c.firstByte = none then
        { c with firstByte := some c.socket.soSeq }
      else c

/-- One number for all SYNs, the next one for what the other side has to acknowledge and for the
first byte. -/
structure Consistent : Prop where
  syns : ∀ seq ∈ c.syns, seq = initialSeq
  success : c.pc = .returned true → c.accepted = some (initialSeq + 1)
  firstByte : ∀ seq, c.firstByte = some seq → seq = initialSeq + 1

/-- A number is sent or changed only as long as no answer has come, and a SYN that is sent again
finds the number of the first. -/
def UndisturbedStep (sending : Sending) : ConnectPc → Prop
  | .sendSyn => sending.handed = true → c.socket.soState ≠ .established
  | .advance succeeded => succeeded = true → c.socket.soState ≠ .established
  | .restore => c.socket.soState = .established → c.origSeq = initialSeq + 1
  | .resend => sending.handed = true → c.socket.soState ≠ .established ∧ c.origSeq = initialSeq
  | _ => True

instance (sending : Sending) : ∀ pc, Decidable (c.UndisturbedStep sending pc)
  | .sendSyn => inferInstanceAs (Decidable (_ → _))
  | .advance _ => inferInstanceAs (Decidable (_ → _))
  | .restore => inferInstanceAs (Decidable (_ → _))
  | .resend => inferInstanceAs (Decidable (_ → _ ∧ _))
  | .saveSeq => isTrue trivial
  | .test => isTrue trivial
  | .tick => isTrue trivial
  | .verdict => isTrue trivial
  | .returned _ => isTrue trivial

/-- The answer that makes the connection is one to the first SYN. -/
def Undisturbed : ConnectEvent → Prop
  | .segment segment =>
      c.pc ≠ .returned false → c.Establishes segment → segment.ackNumber = initialSeq + 1
  | .step sending => c.UndisturbedStep sending c.pc
  | .send => True

instance (event : ConnectEvent) : Decidable (c.Undisturbed event) :=
  match event with
  | .segment _ => inferInstanceAs (Decidable (_ → _ → _))
  | .step sending => inferInstanceAs (Decidable (c.UndisturbedStep sending c.pc))
  | .send => isTrue trivial

/-- `sys_connect` has failed, or a byte has been sent after its success. -/
def Over : Prop :=
  c.pc = .returned false ∨ c.pc = .returned true ∧ c.firstByte.isSome = true

end Connecting

/-! ## What a segment does to the numbers -/

section Segment

variable {so : Socket} {segment : TcpSegment}

theorem trackAck_soSeq : (so.trackAck segment).soSeq = so.soSeq := by
  unfold Socket.trackAck
  split <;> rfl

theorem payload_soSeq : (so.payload segment).soSeq = so.soSeq := by
  unfold Socket.payload
  split <;> rfl

theorem finish_soSeq : (so.finish segment).soSeq = so.soSeq := by
  unfold Socket.finish
  split <;> rfl

end Segment

namespace Connecting

variable {c : Connecting}

theorem Establishes.tcpInput {segment : TcpSegment} (h : c.Establishes segment) :
    (tcpInput c.socket segment).soState = .established ∧
      (tcpInput c.socket segment).soSeq = segment.ackNumber := by
  obtain ⟨hrst, hsyn, hack, hstate⟩ := h
  have hhandshake : c.socket.handshake segment =
      { c.socket with
        soAck := segment.seq + 1
        soSeq := segment.ackNumber
        soUna := segment.ackNumber
        soState := .established } := if_pos ⟨hsyn, hack, hstate⟩
  rw [tcpInput_eq hrst, finish_soState, payload_soState, trackAck_soState, finish_soSeq,
    payload_soSeq, trackAck_soSeq, hhandshake]
  exact ⟨rfl, rfl⟩

theorem tcpInput_of_not_establishes {segment : TcpSegment} (h : ¬ c.Establishes segment) :
    (tcpInput c.socket segment).soState = c.socket.soState ∧
      (tcpInput c.socket segment).soSeq = c.socket.soSeq := by
  cases hrst : segment.rst with
  | true =>
      unfold Net.tcpInput
      rw [if_pos hrst]
      exact ⟨rfl, rfl⟩
  | false =>
      have hhandshake : c.socket.handshake segment = c.socket :=
        if_neg fun hsyn => h ⟨hrst, hsyn⟩
      rw [tcpInput_eq hrst, finish_soState, payload_soState, trackAck_soState, finish_soSeq,
        payload_soSeq, trackAck_soSeq, hhandshake]
      exact ⟨rfl, rfl⟩

/-! ## The invariant -/

/-- What the number is while no answer has come. -/
def Awaits (c : Connecting) : Prop :=
  match c.pc with
  | .sendSyn => c.socket.soSeq = initialSeq
  | .advance _ => c.socket.soSeq = initialSeq
  | .resend => c.socket.soSeq = c.origSeq
  | _ => True

structure Numbered (c : Connecting) : Prop where
  syns : ∀ seq ∈ c.syns, seq = initialSeq
  state : c.socket.soState = .synSent ∨ c.socket.soState = .established
  made : c.pc ≠ .returned false → c.socket.soState = .established →
    c.accepted = some (initialSeq + 1) ∧ c.socket.soSeq = initialSeq + 1
  awaits : c.socket.soState = .synSent → c.Awaits
  success : c.pc = .returned true → c.socket.soState = .established
  firstByte : ∀ seq, c.firstByte = some seq → c.pc = .returned true ∧ seq = initialSeq + 1

theorem numbered_start (so : Socket) : (start so).Numbered where
  syns _ h := nomatch h
  state := Or.inl rfl
  made _ h := nomatch h
  awaits _ := rfl
  success h := nomatch h
  firstByte _ h := nomatch h

theorem Numbered.consistent (h : c.Numbered) : c.Consistent where
  syns := h.syns
  success hpc := (h.made (hpc ▸ nofun) (h.success hpc)).1
  firstByte seq hseq := (h.firstByte seq hseq).2

theorem Numbered.move (h : c.Numbered) {d : Connecting}
    (hpc : ∀ success, c.pc ≠ .returned success) (hsyns : d.syns = c.syns)
    (hstate : d.socket.soState = c.socket.soState)
    (haccepted : d.accepted = c.accepted) (hbyte : d.firstByte = c.firstByte)
    (hseq : c.socket.soState = .established → d.socket.soSeq = initialSeq + 1)
    (hawaits : c.socket.soState = .synSent → d.Awaits)
    (hsuccess : d.pc = .returned true → c.socket.soState = .established) : d.Numbered where
  syns := hsyns ▸ h.syns
  state := hstate ▸ h.state
  made _ hmade := ⟨haccepted ▸ (h.made (hpc false) (hstate ▸ hmade)).1, hseq (hstate ▸ hmade)⟩
  awaits hsyn := hawaits (hstate ▸ hsyn)
  success hret := hstate ▸ hsuccess hret
  firstByte seq hsome := absurd (h.firstByte seq (hbyte ▸ hsome)).1 (hpc true)

theorem Numbered.keepSeq (h : c.Numbered) {d : Connecting}
    (hpc : ∀ success, c.pc ≠ .returned success) (hsyns : d.syns = c.syns)
    (hsocket : d.socket = c.socket) (haccepted : d.accepted = c.accepted)
    (hbyte : d.firstByte = c.firstByte) (hawaits : d.Awaits)
    (hsuccess : d.pc = .returned true → c.socket.soState = .established) : d.Numbered := by
  refine h.move hpc hsyns (congrArg Socket.soState hsocket) haccepted hbyte ?_ ?_ hsuccess
  · rw [hsocket]
    exact fun hmade => (h.made (hpc false) hmade).2
  · exact fun _ => hawaits

theorem Numbered.transmit (h : c.Numbered) {sending : Sending}
    (hseq : sending.handed = true → c.socket.soSeq = initialSeq) :
    (c.transmit sending).Numbered := by
  unfold Connecting.transmit
  split
  · next hhanded =>
      refine ⟨fun seq hmem => ?_, h.state, h.made, h.awaits, h.success, h.firstByte⟩
      rcases List.mem_append.mp hmem with hold | hnew
      · exact h.syns seq hold
      · rw [List.mem_singleton.mp hnew, hseq hhanded]
  · exact h

@[simp]
theorem transmit_socket (sending : Sending) : (c.transmit sending).socket = c.socket := by
  unfold Connecting.transmit
  split <;> rfl

@[simp]
theorem transmit_pc (sending : Sending) : (c.transmit sending).pc = c.pc := by
  unfold Connecting.transmit
  split <;> rfl

/-! ## Steps -/

theorem Numbered.synSent (h : c.Numbered) (hmade : c.socket.soState ≠ .established) :
    c.socket.soState = .synSent := h.state.resolve_right hmade

theorem not_established (h : c.socket.soState = .synSent) : c.socket.soState ≠ .established :=
  fun hmade => nomatch h.symm.trans hmade

theorem Numbered.sendSyn (h : c.Numbered) (hpc : c.pc = .sendSyn) {sending : Sending}
    (hguard : sending.handed = true → c.socket.soState ≠ .established) :
    ((c.transmit sending).goTo (.advance sending.succeeded)).Numbered := by
  have hfirst : c.socket.soState = .synSent → c.socket.soSeq = initialSeq := by
    intro hsyn
    have hawaits := h.awaits hsyn
    unfold Awaits at hawaits
    rwa [hpc] at hawaits
  have hsent : (c.transmit sending).Numbered :=
    h.transmit fun hhanded => hfirst (h.synSent (hguard hhanded))
  have hmade : c.socket.soState = .established → c.socket.soSeq = initialSeq + 1 :=
    fun hmade => (h.made (hpc ▸ nofun) hmade).2
  have hret : ∀ success, (c.transmit sending).pc ≠ .returned success := by
    rw [transmit_pc, hpc]
    exact fun _ => nofun
  refine hsent.move hret rfl rfl rfl rfl ?_ ?_ nofun
  · intro hsome
    change (c.transmit sending).socket.soSeq = initialSeq + 1
    rw [transmit_socket] at hsome ⊢
    exact hmade hsome
  · intro hsyn
    change (c.transmit sending).socket.soSeq = initialSeq
    rw [transmit_socket] at hsyn ⊢
    exact hfirst hsyn

theorem Numbered.advance (h : c.Numbered) {succeeded : Bool} (hpc : c.pc = .advance succeeded)
    (hguard : succeeded = true → c.socket.soState ≠ .established) :
    (if succeeded = true then (c.setSeq (c.socket.soSeq + 1)).goTo .saveSeq
      else c.goTo .saveSeq).Numbered := by
  have hret : ∀ success, c.pc ≠ .returned success := by
    rw [hpc]
    exact fun _ => nofun
  split
  · next hsucceeded =>
      refine h.move hret rfl rfl rfl rfl ?_ (fun _ => trivial) nofun
      exact fun hmade => absurd hmade (hguard hsucceeded)
  · exact h.keepSeq hret rfl rfl rfl rfl trivial nofun

theorem Numbered.resend (h : c.Numbered) (hpc : c.pc = .resend) {sending : Sending}
    (hguard : sending.handed = true → c.socket.soState ≠ .established ∧ c.origSeq = initialSeq) :
    ((c.transmit sending).goTo .test).Numbered := by
  have hsent : (c.transmit sending).Numbered := by
    apply h.transmit
    intro hhanded
    obtain ⟨hmade, horig⟩ := hguard hhanded
    have hawaits := h.awaits (h.synSent hmade)
    unfold Awaits at hawaits
    rw [hpc] at hawaits
    exact hawaits.trans horig
  refine hsent.keepSeq ?_ rfl rfl rfl rfl trivial nofun
  rw [transmit_pc, hpc]
  exact fun _ => nofun

theorem Numbered.step (h : c.Numbered) {sending : Sending}
    (hguard : c.Undisturbed (.step sending)) : (c.step sending).Numbered := by
  unfold Undisturbed UndisturbedStep at hguard
  unfold Connecting.step
  cases hpc : c.pc with
  | sendSyn =>
      rw [hpc] at hguard
      exact h.sendSyn hpc hguard
  | advance succeeded =>
      rw [hpc] at hguard
      exact h.advance hpc hguard
  | saveSeq => exact h.keepSeq (hpc ▸ fun _ => nofun) rfl rfl rfl rfl trivial nofun
  | test | tick =>
      dsimp only
      split
      · exact h.keepSeq (hpc ▸ fun _ => nofun) rfl rfl rfl rfl trivial nofun
      · exact h.keepSeq (hpc ▸ fun _ => nofun) rfl rfl rfl rfl trivial nofun
  | restore =>
      rw [hpc] at hguard
      exact h.move (hpc ▸ fun _ => nofun) rfl rfl rfl rfl hguard (fun _ => rfl) nofun
  | resend =>
      rw [hpc] at hguard
      exact h.resend hpc hguard
  | verdict =>
      refine h.keepSeq (hpc ▸ fun _ => nofun) rfl rfl rfl rfl trivial ?_
      intro hret
      exact of_decide_eq_true (ConnectPc.returned.inj hret)
  | returned success => exact h

theorem Numbered.segment (h : c.Numbered) {segment : TcpSegment}
    (hguard : c.Undisturbed (.segment segment)) : (c.receive segment).Numbered := by
  by_cases hmakes : c.Establishes segment
  · obtain ⟨hstate, hseq⟩ := hmakes.tcpInput
    have haccepted : (c.receive segment).accepted = some segment.ackNumber := if_pos hmakes
    have hsyn : c.socket.soState ≠ .established := not_established hmakes.2.2.2
    refine ⟨h.syns, Or.inr hstate, fun hpc _ => ?_, fun hsent => ?_, fun _ => hstate,
      h.firstByte⟩
    · rw [haccepted, show (c.receive segment).socket.soSeq = _ from hseq, hguard hpc hmakes]
      exact ⟨rfl, rfl⟩
    · exact nomatch hstate.symm.trans hsent
  · obtain ⟨hstate, hseq⟩ := tcpInput_of_not_establishes hmakes
    have haccepted : (c.receive segment).accepted = c.accepted := if_neg hmakes
    refine ⟨h.syns, ?_, fun hpc hmade => ?_, fun hsent => ?_, fun hpc => ?_, h.firstByte⟩
    · exact hstate.symm ▸ h.state
    · rw [haccepted, show (c.receive segment).socket.soSeq = _ from hseq]
      exact h.made hpc (hstate.symm.trans hmade)
    · have hawaits := h.awaits (hstate.symm.trans hsent)
      unfold Awaits at hawaits ⊢
      rw [show (c.receive segment).socket.soSeq = _ from hseq]
      exact hawaits
    · exact hstate.trans (h.success hpc)

theorem Numbered.send (h : c.Numbered) : (c.next .send).Numbered := by
  change Numbered (if c.pc = .returned true ∧ c.firstByte = none then _ else _)
  split
  · next hsend =>
      refine ⟨h.syns, h.state, h.made, h.awaits, h.success, fun seq hseq => ⟨hsend.1, ?_⟩⟩
      rw [← Option.some.inj hseq]
      exact (h.made (hsend.1 ▸ nofun) (h.success hsend.1)).2
  · exact h

theorem Numbered.next (h : c.Numbered) {event : ConnectEvent} (hguard : c.Undisturbed event) :
    (c.next event).Numbered := by
  cases event with
  | segment segment => exact h.segment hguard
  | step sending => exact h.step hguard
  | send => exact h.send

/-! ## Numbers that stay wrong -/

/-- The steps between which no answer can change the number any more. -/
def Settled : ConnectPc → Bool
  | .saveSeq => true
  | .test => true
  | .resend => true
  | .verdict => true
  | .returned success => success
  | _ => false

/-- A SYN has gone out with another number. -/
def Misnumbered (c : Connecting) : Prop := ∃ seq ∈ c.syns, seq ≠ initialSeq

/-- The connection was made by an answer to something else. -/
structure MadeWrong (c : Connecting) : Prop where
  made : c.socket.soState = .established
  notFailed : c.pc ≠ .returned false
  accepted : c.accepted ≠ some (initialSeq + 1)

/-- The first byte will not follow the SYN. -/
structure SeqLost (c : Connecting) : Prop where
  made : c.socket.soState = .established
  settled : Settled c.pc = true
  seq : c.socket.soSeq ≠ initialSeq + 1
  firstByte : c.firstByte ≠ some (initialSeq + 1)

def Astray (c : Connecting) : Prop := c.Misnumbered ∨ c.MadeWrong ∨ c.SeqLost

@[simp]
theorem transmit_accepted (sending : Sending) : (c.transmit sending).accepted = c.accepted := by
  unfold Connecting.transmit
  split <;> rfl

@[simp]
theorem transmit_firstByte (sending : Sending) : (c.transmit sending).firstByte = c.firstByte := by
  unfold Connecting.transmit
  split <;> rfl

theorem transmit_syns (sending : Sending) : c.syns <+: (c.transmit sending).syns := by
  unfold Connecting.transmit
  split
  · exact List.prefix_append _ _
  · exact List.prefix_rfl

theorem step_frame (sending : Sending) :
    c.syns <+: (c.step sending).syns ∧ (c.step sending).socket.soState = c.socket.soState ∧
      (c.step sending).accepted = c.accepted ∧ (c.step sending).firstByte = c.firstByte := by
  have hkeep : c.syns <+: c.syns ∧ c.socket.soState = c.socket.soState ∧
      c.accepted = c.accepted ∧ c.firstByte = c.firstByte :=
    ⟨List.prefix_rfl, rfl, rfl, rfl⟩
  have hsend : c.syns <+: (c.transmit sending).syns ∧
      (c.transmit sending).socket.soState = c.socket.soState ∧
      (c.transmit sending).accepted = c.accepted ∧
      (c.transmit sending).firstByte = c.firstByte :=
    ⟨transmit_syns sending, by rw [transmit_socket], transmit_accepted sending,
      transmit_firstByte sending⟩
  unfold Connecting.step
  cases c.pc with
  | sendSyn => exact hsend
  | resend => exact hsend
  | advance succeeded => cases succeeded <;> exact hkeep
  | saveSeq => exact hkeep
  | test | tick =>
      dsimp only
      split <;> exact hkeep
  | restore => exact hkeep
  | verdict => exact hkeep
  | returned success => exact hkeep

theorem Misnumbered.next (h : c.Misnumbered) (event : ConnectEvent) :
    (c.next event).Misnumbered := by
  obtain ⟨seq, hmem, hseq⟩ := h
  have hprefix : c.syns <+: (c.next event).syns := by
    cases event with
    | segment segment => exact List.prefix_rfl
    | step sending => exact (step_frame sending).1
    | send =>
        unfold Connecting.next
        dsimp only
        split <;> exact List.prefix_rfl
  exact ⟨seq, hprefix.subset hmem, hseq⟩

theorem receive_of_made (h : c.socket.soState = .established) (segment : TcpSegment) :
    (c.receive segment).socket.soState = .established ∧
      (c.receive segment).socket.soSeq = c.socket.soSeq ∧
      (c.receive segment).accepted = c.accepted := by
  have hmakes : ¬ c.Establishes segment := fun hmakes => not_established hmakes.2.2.2 h
  obtain ⟨hstate, hseq⟩ := tcpInput_of_not_establishes hmakes
  exact ⟨hstate.trans h, hseq, if_neg hmakes⟩

theorem MadeWrong.next (h : c.MadeWrong) (event : ConnectEvent) : (c.next event).MadeWrong := by
  cases event with
  | segment segment =>
      obtain ⟨hstate, _, haccepted⟩ := receive_of_made h.made segment
      exact ⟨hstate, h.notFailed, haccepted ▸ h.accepted⟩
  | step sending =>
      obtain ⟨_, hstate, haccepted, _⟩ := step_frame (c := c) sending
      refine ⟨hstate.trans h.made, ?_, haccepted.symm ▸ h.accepted⟩
      have hopen := h.notFailed
      change (c.step sending).pc ≠ .returned false
      unfold Connecting.step
      cases hpc : c.pc with
      | advance succeeded => cases succeeded <;> exact nofun
      | test | tick =>
          dsimp only
          split <;> exact nofun
      | verdict =>
          change ConnectPc.returned (decide (c.socket.soState = .established)) ≠ _
          rw [h.made]
          decide
      | returned success => exact hopen
      | _ => exact nofun
  | send =>
      unfold Connecting.next
      dsimp only
      split
      · exact ⟨h.made, h.notFailed, h.accepted⟩
      · exact h

theorem SeqLost.step (h : c.SeqLost) (sending : Sending) :
    Settled (c.step sending).pc = true ∧ (c.step sending).socket.soSeq = c.socket.soSeq := by
  have hsettled := h.settled
  unfold Connecting.step
  cases hpc : c.pc with
  | saveSeq => exact ⟨rfl, rfl⟩
  | test =>
      dsimp only
      rw [if_neg fun htest => htest.1 h.made]
      exact ⟨rfl, rfl⟩
  | resend => exact ⟨rfl, congrArg Socket.soSeq (transmit_socket sending)⟩
  | verdict => exact ⟨decide_eq_true h.made, rfl⟩
  | returned success => exact ⟨hsettled, rfl⟩
  | _ =>
      rw [hpc] at hsettled
      exact absurd hsettled Bool.false_ne_true

theorem SeqLost.next (h : c.SeqLost) (event : ConnectEvent) : (c.next event).SeqLost := by
  cases event with
  | segment segment =>
      obtain ⟨hstate, hseq, _⟩ := receive_of_made h.made segment
      exact ⟨hstate, h.settled, hseq ▸ h.seq, h.firstByte⟩
  | step sending =>
      obtain ⟨hsettled, hseq⟩ := h.step sending
      obtain ⟨_, hstate, _, hbyte⟩ := step_frame (c := c) sending
      exact ⟨hstate.trans h.made, hsettled, hseq.symm ▸ h.seq, hbyte.symm ▸ h.firstByte⟩
  | send =>
      unfold Connecting.next
      dsimp only
      split
      · exact ⟨h.made, h.settled, h.seq, fun hsome => h.seq (Option.some.inj hsome)⟩
      · exact h

theorem Astray.next (h : c.Astray) (event : ConnectEvent) : (c.next event).Astray := by
  rcases h with h | h | h
  · exact Or.inl (h.next event)
  · exact Or.inr (Or.inl (h.next event))
  · exact Or.inr (Or.inr (h.next event))

theorem Astray.not_consistent (h : c.Astray) (hover : c.Over) : ¬ c.Consistent := by
  intro hconsistent
  rcases h with ⟨seq, hmem, hseq⟩ | h | h
  · exact hseq (hconsistent.syns seq hmem)
  · rcases hover with hfailed | ⟨hsuccess, _⟩
    · exact h.notFailed hfailed
    · exact h.accepted (hconsistent.success hsuccess)
  · rcases hover with hfailed | ⟨_, hbyte⟩
    · have hsettled := h.settled
      rw [hfailed] at hsettled
      exact Bool.false_ne_true hsettled
    · obtain ⟨seq, hseq⟩ := Option.isSome_iff_exists.mp hbyte
      exact h.firstByte (hconsistent.firstByte seq hseq ▸ hseq)

theorem Numbered.firstByte_none (h : c.Numbered) (hpc : c.pc ≠ .returned true) :
    c.firstByte = none := by
  cases hbyte : c.firstByte with
  | none => rfl
  | some seq => exact absurd (h.firstByte seq hbyte).1 hpc

theorem misnumbered_transmit {sending : Sending} (hhanded : sending.handed = true)
    (hseq : c.socket.soSeq ≠ initialSeq) (pc : ConnectPc) :
    ((c.transmit sending).goTo pc).Misnumbered := by
  have hsyns : ((c.transmit sending).goTo pc).syns = c.syns ++ [c.socket.soSeq] :=
    congrArg Connecting.syns (if_pos hhanded)
  refine ⟨c.socket.soSeq, ?_, hseq⟩
  rw [hsyns]
  exact List.mem_append_right _ (List.mem_singleton_self _)

theorem Numbered.astray_step (h : c.Numbered) {sending : Sending}
    (hguard : ¬ c.Undisturbed (.step sending)) : (c.step sending).Astray := by
  have hnumber : c.pc ≠ .returned false → c.socket.soState = .established →
      c.socket.soSeq ≠ initialSeq := by
    intro hpc hmade
    rw [(h.made hpc hmade).2]
    decide
  unfold Undisturbed UndisturbedStep at hguard
  unfold Connecting.step
  cases hpc : c.pc with
  | sendSyn =>
      rw [hpc] at hguard
      obtain ⟨hhanded, hmade⟩ := Classical.not_imp.mp hguard
      exact Or.inl (misnumbered_transmit hhanded
        (hnumber (hpc ▸ nofun) (not_not.mp hmade)) _)
  | advance succeeded =>
      rw [hpc] at hguard
      obtain ⟨hsucceeded, hmade⟩ := Classical.not_imp.mp hguard
      obtain ⟨_, hseq⟩ := h.made (hpc ▸ nofun) (not_not.mp hmade)
      dsimp only
      rw [if_pos hsucceeded]
      refine Or.inr (Or.inr ⟨not_not.mp hmade, rfl, ?_, ?_⟩)
      · change c.socket.soSeq + 1 ≠ _
        rw [hseq]
        decide
      · change c.firstByte ≠ _
        rw [h.firstByte_none (hpc ▸ nofun)]
        exact nofun
  | restore =>
      rw [hpc] at hguard
      obtain ⟨hmade, horig⟩ := Classical.not_imp.mp hguard
      refine Or.inr (Or.inr ⟨hmade, rfl, horig, ?_⟩)
      change c.firstByte ≠ _
      rw [h.firstByte_none (hpc ▸ nofun)]
      exact nofun
  | resend =>
      rw [hpc] at hguard
      obtain ⟨hhanded, hnot⟩ := Classical.not_imp.mp hguard
      refine Or.inl (misnumbered_transmit hhanded ?_ _)
      rcases h.state with hsyn | hmade
      · have hawaits := h.awaits hsyn
        unfold Awaits at hawaits
        rw [hpc] at hawaits
        rw [hawaits]
        exact fun horig => hnot ⟨not_established hsyn, horig⟩
      · exact hnumber (hpc ▸ nofun) hmade
  | _ =>
      rw [hpc] at hguard
      exact absurd trivial hguard

theorem Numbered.astray (h : c.Numbered) {event : ConnectEvent}
    (hguard : ¬ c.Undisturbed event) : (c.next event).Astray := by
  cases event with
  | segment segment =>
      obtain ⟨hpc, hnot⟩ := Classical.not_imp.mp hguard
      obtain ⟨hmakes, hack⟩ := Classical.not_imp.mp hnot
      have haccepted : (c.receive segment).accepted = some segment.ackNumber := if_pos hmakes
      refine Or.inr (Or.inl ⟨hmakes.tcpInput.1, hpc, ?_⟩)
      change (c.receive segment).accepted ≠ _
      rw [haccepted]
      exact fun hsome => hack (Option.some.inj hsome)
  | step sending => exact h.astray_step hguard
  | send => exact absurd trivial hguard

/-- Whatever arrives, and however often the SYN is sent. -/
theorem consistent_iff (so : Socket) (events : List ConnectEvent) :
    (Along (fun c event _ => c.Undisturbed event) (start so) (trace next (start so) events) →
        Always Consistent (start so) (trace next (start so) events)) ∧
      (Over (final (start so) (trace next (start so) events)) →
        (Consistent (final (start so) (trace next (start so) events)) ↔
          Along (fun c event _ => c.Undisturbed event) (start so)
            (trace next (start so) events))) := by
  have hkeep : Along (fun c event _ => c.Undisturbed event) (start so)
      (trace next (start so) events) →
        Always Consistent (start so) (trace next (start so) events) := by
    intro hguard
    have hnumbered : Always Numbered (start so) (trace next (start so) events) := by
      have hrun := along_trace next (start so) events
      apply always_of_guarded Numbered _ (numbered_start so) hrun hguard
      intro c event d h hguard hnext
      rw [hnext]
      exact h.next hguard
    exact hnumbered.mono fun c => Numbered.consistent
  refine ⟨hkeep, fun hover => ⟨fun hconsistent => ?_, fun hguard => (hkeep hguard).final⟩⟩
  by_contra hguard
  have hastray : Astray (final (start so) (trace next (start so) events)) :=
    final_of_not_along next (fun c event h => h.next) (fun c event h => h.astray)
      (fun c event h => h.next event) (numbered_start so) hguard
  exact hastray.not_consistent hover hconsistent

/-- The answer to the first SYN comes at once. -/
def promptAnswer : List ConnectEvent :=
  [.step .sent, .step .sent, .step .sent,
    .segment ⟨false, true, false, true, 5000, 1001, []⟩, .step .sent, .step .sent, .send]

theorem consistent_iff_promptAnswer :
    Consistent (final (start .connecting) (trace next (start .connecting) promptAnswer)) ∧
      (final (start .connecting) (trace next (start .connecting) promptAnswer)).firstByte =
        some 1001 :=
  ⟨((consistent_iff .connecting promptAnswer).2 (Or.inr (by decide))).mpr (by decide), by decide⟩

/-- Nothing comes for a second. -/
def lateAnswer : List ConnectEvent := List.replicate 45 (.step .sent)

theorem not_consistent_lateAnswer :
    ¬ Always Consistent (start .connecting) (trace next (start .connecting) lateAnswer) := by
  intro h
  have hsyns : (final (start .connecting) (trace next (start .connecting) lateAnswer)).syns =
      [1000, 1001] := by decide
  have hseq : (1001 : UInt32) = initialSeq := by
    apply h.final.syns
    rw [hsyns]
    exact List.mem_cons_of_mem _ (List.mem_singleton_self _)
  exact absurd hseq (by decide)

end Connecting

end EigenOS.Net
