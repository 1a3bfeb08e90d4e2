import N2nGo.Model.Management
import Mathlib.Data.List.TakeWhile

/-!
# The management protocol

A message behind its length is found again whatever follows it and however the stream is
cut, so a sequence of messages is received as it was sent. The one exception is the empty
message: `sendMessage` sends it, and `recvMessage` takes its length for an error. It still
reads on at the right place.

The server reads the password as a line and trims it, and it does not trim the password it
was configured with. So a client with the same password is admitted if that password is its
own trimmed first line (`Sendable`). The other direction holds for every client: a session
calls no handler before its first line, trimmed, was the password (`Guarded`).
-/

set_option autoImplicit false

namespace N2nGo.Management

open N2nGo.Lib N2nGo.Lib.Text

/-! ## Messages -/

section Messages

variable {message : Bytes} {messages : List Bytes} {i : Incoming}

theorem toNat_ofNat_length (h : message.length < 2 ^ 32) :
    (UInt32.ofNat message.length).toNat = message.length := by
  rw [UInt32.toNat_ofNat', Nat.mod_eq_of_lt h]

theorem sendMessage_of_lt (h : message.length < 2 ^ 32) :
    sendMessage message = .ok (putUint32 (UInt32.ofNat message.length) ++ message) := by
  simp only [sendMessage, toNat_ofNat_length h, ne_eq, not_true_eq_false, if_false]

theorem readUint32_putUint32 (x : UInt32) : readUint32 (putUint32 x) = .ok x := by
  show Except.ok (uint32 _ _ _ _) = _
  rw [uint32_putUint32]

/-- What a message becomes on the way. -/
def received (message : Bytes) : Except RecvErr Bytes :=
  if message = [] then .error .zeroLength else .ok message

theorem recvMessage_of_send (hlen : message.length < 2 ^ 32) {tail : Bytes}
    (hi : i.rest = putUint32 (UInt32.ofNat message.length) ++ (message ++ tail)) :
    ∃ i', recvMessage i = .ok (received message, i') ∧ i'.rest = tail := by
  have hfour : (putUint32 (UInt32.ofNat message.length)).length = 4 := rfl
  have hroom : 4 ≤ i.rest.length := by
    rw [hi, List.length_append, hfour]
    omega
  obtain ⟨i1, hread, hrest⟩ := Incoming.readFull_of_le hroom
  rw [hi, List.take_left' hfour] at hread
  rw [hi, List.drop_left' hfour] at hrest
  have hnat := toNat_ofNat_length hlen
  by_cases hempty : message = []
  · refine ⟨i1, ?_, by rw [hrest, hempty]; rfl⟩
    have hzero : UInt32.ofNat message.length = 0 := by rw [hempty]; rfl
    simp only [recvMessage, hread, readUint32_putUint32, ok_bind, received]
    rw [if_pos hzero, if_pos hempty]
  · have hpos : 0 < message.length := List.length_pos_iff.mpr hempty
    have hne : UInt32.ofNat message.length ≠ 0 := by
      intro hzero
      rw [hzero] at hnat
      exact Nat.ne_of_lt hpos hnat
    have hbody : message.length ≤ i1.rest.length := by
      rw [hrest, List.length_append]
      omega
    obtain ⟨i2, hread2, hrest2⟩ := Incoming.readFull_of_le hbody
    rw [hrest, List.take_left] at hread2
    rw [hrest, List.drop_left] at hrest2
    refine ⟨i2, ?_, hrest2⟩
    simp only [recvMessage, hread, readUint32_putUint32, ok_bind, received]
    rw [if_neg hne, if_neg hempty, hnat, hread2]

theorem sendMessages_cons (h : message.length < 2 ^ 32) {stream : Bytes} :
    sendMessages (message :: messages) = .ok stream ↔
      ∃ others, sendMessages messages = .ok others ∧
        stream = putUint32 (UInt32.ofNat message.length) ++ (message ++ others) := by
  rw [sendMessages, sendMessage_of_lt h]
  constructor
  · intro hsend
    obtain ⟨first, hfirst, hsend⟩ := bind_eq_ok.mp hsend
    obtain ⟨others, hothers, heq⟩ := bind_eq_ok.mp hsend
    cases hfirst
    cases heq
    exact ⟨others, hothers, List.append_assoc _ _ _⟩
  · rintro ⟨others, hothers, rfl⟩
    refine bind_eq_ok.mpr ⟨_, rfl, bind_eq_ok.mpr ⟨others, hothers, ?_⟩⟩
    rw [List.append_assoc]

theorem exists_sendMessages (h : ∀ message ∈ messages, message.length < 2 ^ 32) :
    ∃ stream, sendMessages messages = .ok stream := by
  induction messages with
  | nil => exact ⟨[], rfl⟩
  | cons message messages ih =>
    obtain ⟨hfirst, hothers⟩ := List.forall_mem_cons.mp h
    obtain ⟨others, hsend⟩ := ih hothers
    exact ⟨_, (sendMessages_cons hfirst).mpr ⟨others, hsend, rfl⟩⟩

/-- A sequence of messages: the one in front is received, and the stream that is left holds
the others. -/
theorem recvMessages_of_send (hlen : ∀ message ∈ messages, message.length < 2 ^ 32)
    (hsend : sendMessages messages = .ok i.rest) :
    ∃ i', recvMessages messages.length i = .ok (messages.map received, i') ∧ i'.rest = [] := by
  induction messages generalizing i with
  | nil => exact ⟨i, rfl, (Except.ok.inj hsend).symm⟩
  | cons message messages ih =>
    obtain ⟨hfirst, hothers⟩ := List.forall_mem_cons.mp hlen
    obtain ⟨others, hsent, hrest⟩ := (sendMessages_cons hfirst).mp hsend
    obtain ⟨i1, hrecv, hrest1⟩ := recvMessage_of_send hfirst hrest
    rw [← hrest1] at hsent
    obtain ⟨i2, hlater, hrest2⟩ := ih hothers hsent
    refine ⟨i2, ?_, hrest2⟩
    rw [List.length_cons, recvMessages, hrecv, ok_bind]
    simp only [hlater, ok_bind, List.map_cons]

theorem map_received_eq_iff : messages.map received = messages.map .ok ↔ [] ∉ messages := by
  rw [List.map_inj_left]
  constructor
  · intro h hmem
    have hzero := h [] hmem
    cases hzero
  · intro h message hmessage
    have hne : message ≠ [] := ne_of_mem_of_not_mem hmessage h
    exact if_neg hne

/-- **Messages are received as they were sent, if none is empty.** They can always be sent; the
calls leave no byte of them, and an empty one is received as an error.
GOLINE: management/server.go:320-384 -/
theorem framing_iff (messages : List Bytes) (hlen : ∀ message ∈ messages, message.length < 2 ^ 32) :
    ∃ stream, sendMessages messages = .ok stream ∧
      ∀ i : Incoming, i.rest = stream →
        (∃ i', recvMessages messages.length i = .ok (messages.map received, i') ∧ i'.rest = []) ∧
        ((∃ i', recvMessages messages.length i = .ok (messages.map .ok, i') ∧ i'.rest = []) ↔
          [] ∉ messages) := by
  obtain ⟨stream, hsend⟩ := exists_sendMessages hlen
  refine ⟨stream, hsend, fun i hi => ?_⟩
  rw [← hi] at hsend
  obtain ⟨i', hrecv, hrest⟩ := recvMessages_of_send hlen hsend
  refine ⟨⟨i', hrecv, hrest⟩, ?_⟩
  rw [← map_received_eq_iff]
  constructor
  · rintro ⟨i1, hrecv1, -⟩
    rw [hrecv] at hrecv1
    exact congrArg Prod.fst (Except.ok.inj hrecv1)
  · intro hsame
    exact ⟨i', hsame ▸ hrecv, hrest⟩

/-- Two messages, the second of which looks like a length. -/
theorem framing_iff_two : (∀ message ∈ [ascii "pong", [0, 0, 0, 1]], message.length < 2 ^ 32) ∧
    ∃ stream, sendMessages [ascii "pong", [0, 0, 0, 1]] = .ok stream ∧
      ∀ i : Incoming, i.rest = stream → ∃ i', recvMessages 2 i =
        .ok ([ascii "pong", [0, 0, 0, 1]].map .ok, i') ∧ i'.rest = [] := by
  have hlen : ∀ message ∈ [ascii "pong", [0, 0, 0, 1]], message.length < 2 ^ 32 := by decide
  obtain ⟨stream, hsend, hrecv⟩ := framing_iff _ hlen
  exact ⟨hlen, stream, hsend, fun i hi => (hrecv i hi).2.mpr (by decide)⟩

/-- An empty message is sent and not received. -/
theorem recvMessages_zeroLength :
    sendMessages [[]] = .ok [0, 0, 0, 0] ∧
      (recvMessages 1 ⟨[[0, 0, 0, 0]], by decide⟩).map Prod.fst = .ok [.error .zeroLength] :=
  ⟨rfl, rfl⟩

end Messages

/-! ## Sessions -/

section Sessions

variable {P : Platform} {s : ManagementServer} {c : Session}

theorem feed_append (front back : Text) :
    feed P s c (front ++ back) = feed P s (feed P s c front) back :=
  List.foldl_append

theorem feed_of_closed (h : c.phase = .closed) (input : Text) : feed P s c input = c := by
  induction input with
  | nil => rfl
  | cons r input ih =>
    have hreceive : receive P s c r = c := by simp only [receive, h]
    rw [feed, List.foldl_cons, hreceive]
    exact ih

theorem feed_of_not_mem (hopen : c.phase ≠ .closed) {line : Text} (hline : newline ∉ line) :
    feed P s c line = { c with pending := c.pending ++ line } := by
  induction line generalizing c with
  | nil =>
    rw [List.append_nil]
    rfl
  | cons r line ih =>
    obtain ⟨hr, hline⟩ := List.ne_and_not_mem_of_not_mem_cons hline
    have hreceive : receive P s c r = { c with pending := c.pending ++ [r] } := by
      cases hphase : c.phase with
      | password => simp only [receive, hphase, if_neg hr.symm]
      | commands => simp only [receive, hphase, if_neg hr.symm]
      | closed => exact absurd hphase hopen
    rw [feed, List.foldl_cons, hreceive]
    have hrest := @ih { c with pending := c.pending ++ [r] } hopen hline
    rw [List.append_assoc] at hrest
    exact hrest

theorem receive_password (h : c.phase = .password) :
    receive P s c newline = authenticate s { c with pending := [] } (c.pending ++ [newline]) := by
  simp only [receive, h, if_true]

theorem receive_commands (h : c.phase = .commands) :
    receive P s c newline = execute P s { c with pending := [] } (c.pending ++ [newline]) := by
  simp only [receive, h, if_true]

theorem feed_line (hopen : c.phase ≠ .closed) {line : Text} (hline : newline ∉ line)
    (more : Text) :
    feed P s c (line ++ newline :: more) =
      feed P s (receive P s { c with pending := c.pending ++ line } newline) more := by
  rw [feed_append, feed_of_not_mem hopen hline]
  rfl

theorem feed_password_line (h : c.phase = .password) {line : Text} (hline : newline ∉ line)
    (more : Text) :
    feed P s c (line ++ newline :: more) =
      feed P s (authenticate s { c with pending := [] } (c.pending ++ line ++ [newline])) more := by
  rw [feed_line (by rw [h]; exact Phase.noConfusion) hline]
  exact congrArg (feed P s · more) (receive_password h)

theorem feed_command_line (h : c.phase = .commands) {line : Text} (hline : newline ∉ line)
    (more : Text) :
    feed P s c (line ++ newline :: more) =
      feed P s (execute P s { c with pending := [] } (c.pending ++ line ++ [newline])) more := by
  rw [feed_line (by rw [h]; exact Phase.noConfusion) hline]
  exact congrArg (feed P s · more) (receive_commands h)

theorem isSpace_newline : newline.isSpace = true := by decide

/-! ### What a session never does -/

/-- The first line that came, trimmed, is the password. -/
def Admitted (s : ManagementServer) (input : Text) : Prop :=
  ∃ line more, input = line ++ newline :: more ∧ newline ∉ line ∧ trimSpace line = s.password

theorem Admitted.append {input : Text} (h : Admitted s input) (more : Text) :
    Admitted s (input ++ more) := by
  obtain ⟨line, rest, rfl, hline, hpass⟩ := h
  refine ⟨line, rest ++ more, ?_, hline, hpass⟩
  rw [List.append_assoc, List.cons_append]

/-- The state of a session to which `input` has come: it waits for the end of the first line,
or it goes on only if that line was the password. -/
structure Guarded (s : ManagementServer) (c : Session) (input : Text) : Prop where
  waiting : c.phase = .password → c.pending = input ∧ newline ∉ input
  commands : c.phase = .commands → Admitted s input
  calls : c.calls ≠ [] → Admitted s input

theorem guarded_start (hpass : s.password ≠ []) : Guarded s (start s) [] where
  waiting _ := ⟨rfl, List.not_mem_nil⟩
  commands h := by
    rw [start, if_pos hpass] at h
    cases h
  calls h := absurd rfl h

theorem guarded_interrupt {input : Text} (h : Guarded s c input) (timeout : Bool) :
    Guarded s (interrupt c timeout) input := by
  cases hphase : c.phase with
  | closed =>
    simp only [interrupt, hphase]
    exact h
  | password =>
    simp only [interrupt, hphase]
    exact ⟨(nomatch ·), (nomatch ·), h.calls⟩
  | commands =>
    simp only [interrupt, hphase]
    exact ⟨(nomatch ·), (nomatch ·), h.calls⟩

theorem phase_execute_ne (hphase : c.phase ≠ .password) (cmdLine : Text) :
    (execute P s c cmdLine).phase ≠ .password := by
  simp only [execute]
  split
  · exact hphase
  · split
    · exact Phase.noConfusion
    · split
      · exact Phase.noConfusion
      · exact hphase

theorem guarded_receive {input : Text} (h : Guarded s c input) (r : Rune) :
    Guarded s (receive P s c r) (input ++ [r]) := by
  have hcalls : c.calls ≠ [] → Admitted s (input ++ [r]) := fun hne => (h.calls hne).append _
  cases hphase : c.phase with
  | closed =>
    simp only [receive, hphase]
    refine ⟨fun hwait => ?_, fun hcmd => ?_, hcalls⟩
    · rw [hphase] at hwait
      cases hwait
    · rw [hphase] at hcmd
      cases hcmd
  | password =>
    obtain ⟨hpending, hline⟩ := h.waiting hphase
    by_cases hr : r = newline
    · subst hr
      rw [receive_password hphase, hpending]
      simp only [authenticate]
      split
      · exact ⟨(nomatch ·), (nomatch ·), hcalls⟩
      · next hsame =>
        rw [trimSpace_concat isSpace_newline, not_not] at hsame
        have hadmitted : Admitted s (input ++ [newline]) := ⟨input, [], rfl, hline, hsame⟩
        exact ⟨(nomatch ·), fun _ => hadmitted, hcalls⟩
    · have hnot : newline ∉ input ++ [r] := by
        rw [List.mem_append, List.mem_singleton, not_or]
        exact ⟨hline, fun heq => hr heq.symm⟩
      simp only [receive, hphase, if_neg hr]
      refine ⟨fun _ => ⟨by rw [hpending], hnot⟩, fun hcmd => ?_, hcalls⟩
      cases hcmd
  | commands =>
    have hadmitted : Admitted s (input ++ [r]) := (h.commands hphase).append _
    refine ⟨fun hwait => ?_, fun _ => hadmitted, fun _ => hadmitted⟩
    exfalso
    by_cases hr : r = newline
    · have hopen : ({ c with pending := [] } : Session).phase ≠ .password := by
        show c.phase ≠ .password
        rw [hphase]
        exact Phase.noConfusion
      rw [hr, receive_commands hphase] at hwait
      exact phase_execute_ne hopen _ hwait
    · simp only [receive, hphase, if_neg hr] at hwait
      cases hwait

theorem guarded_feed {input : Text} (h : Guarded s c input) (more : Text) :
    Guarded s (feed P s c more) (input ++ more) := by
  induction more generalizing c input with
  | nil =>
    rw [List.append_nil]
    exact h
  | cons r more ih =>
    have hrest := ih (guarded_receive (P := P) h r)
    rw [List.append_assoc] at hrest
    exact hrest

/-- What the client sent with an event. -/
def Event.input : Event → Text
  | .receives input => input
  | .timeout => []
  | .disconnect => []

theorem guarded_step {input : Text} (h : Guarded s c input) (e : Event) :
    Guarded s (step P s c e) (input ++ e.input) := by
  cases e with
  | receives more => exact guarded_feed h more
  | timeout =>
    rw [Event.input, List.append_nil]
    exact guarded_interrupt h true
  | disconnect =>
    rw [Event.input, List.append_nil]
    exact guarded_interrupt h false

theorem guarded_foldl {input : Text} (h : Guarded s c input) (events : List Event) :
    Guarded s (events.foldl (step P s) c) (input ++ events.flatMap Event.input) := by
  induction events generalizing c input with
  | nil =>
    rw [List.flatMap_nil, List.append_nil]
    exact h
  | cons e events ih =>
    have hrest := ih (guarded_step (P := P) h e)
    rw [List.append_assoc] at hrest
    exact hrest

theorem guarded_serve (hpass : s.password ≠ []) (events : List Event) :
    Guarded s (serve P s events) (events.flatMap Event.input) :=
  guarded_foldl (guarded_start hpass) events

/-! ### Calls -/

theorem calls_receive (r : Rune) : c.calls <+: (receive P s c r).calls := by
  cases hphase : c.phase with
  | closed => simp only [receive, hphase, List.prefix_refl]
  | password =>
    simp only [receive, hphase, authenticate]
    split
    · split
      · exact List.prefix_refl _
      · exact List.prefix_refl _
    · exact List.prefix_refl _
  | commands =>
    simp only [receive, hphase, execute]
    split
    · split
      · exact List.prefix_refl _
      · split
        · exact List.prefix_refl _
        · split
          · exact List.prefix_append _ _
          · exact List.prefix_append _ _
    · exact List.prefix_refl _

theorem calls_feed (input : Text) : c.calls <+: (feed P s c input).calls := by
  induction input generalizing c with
  | nil => exact List.prefix_refl _
  | cons r input ih => exact (calls_receive r).trans ih

/-- The line of a command that the server takes for the command: the first one that is not
blank. -/
def commandLine (command : Text) : Text :=
  trimSpace ((command.dropWhile Rune.isSpace).takeWhile (· ≠ newline))

theorem takeWhile_ne_newline {t : Text} (h : newline ∉ t) : t.takeWhile (· ≠ newline) = t :=
  List.takeWhile_eq_self_iff.mpr fun _ hr => decide_eq_true (ne_of_mem_of_not_mem hr h)

theorem newline_not_mem_takeWhile (t : Text) : newline ∉ t.takeWhile (· ≠ newline) := by
  intro hmem
  have hne := List.mem_takeWhile_imp hmem
  exact of_decide_eq_true hne rfl

theorem exists_line (t : Text) :
    ∃ more, t ++ [newline] = t.takeWhile (· ≠ newline) ++ newline :: more := by
  induction t with
  | nil => exact ⟨[], rfl⟩
  | cons r t ih =>
    by_cases hr : r = newline
    · refine ⟨t ++ [newline], ?_⟩
      rw [List.takeWhile_cons_of_neg (by simpa using hr), hr]
      rfl
    · obtain ⟨more, hmore⟩ := ih
      refine ⟨more, ?_⟩
      rw [List.takeWhile_cons_of_pos (by simpa using hr), List.cons_append, hmore]
      rfl

/-- The call that a command asks for. -/
def callOf (P : Platform) (command : Text) : Call :=
  let parts := fields (commandLine command)
  ⟨P.toLower (parts.headD []), parts.tail⟩

theorem feed_blank (hphase : c.phase = .commands) {blank : Text}
    (hpending : ∀ r ∈ c.pending, r.isSpace = true) (hblank : ∀ r ∈ blank, r.isSpace = true) :
    ∃ pending : Text, (∀ r ∈ pending, r.isSpace = true) ∧
      feed P s c blank = { c with pending := pending } := by
  induction blank generalizing c with
  | nil => exact ⟨c.pending, hpending, rfl⟩
  | cons r blank ih =>
    obtain ⟨hr, hblank⟩ := List.forall_mem_cons.mp hblank
    have hpending' : ∀ x ∈ c.pending ++ [r], x.isSpace = true := by
      intro x hx
      rcases List.mem_append.mp hx with hx | hx
      · exact hpending x hx
      · rwa [List.mem_singleton.mp hx]
    by_cases hnew : r = newline
    · have htrim : trimSpace (c.pending ++ [newline]) = [] := by
        rw [trimSpace_concat isSpace_newline, ← List.append_nil c.pending,
          trimSpace_append_left hpending]
        rfl
      have hreceive : receive P s c r = { c with pending := [] } := by
        rw [hnew, receive_commands hphase, execute, htrim]
        rfl
      obtain ⟨pending, hspaces, hfeed⟩ := @ih { c with pending := [] } hphase
        (fun _ hx => absurd hx List.not_mem_nil) hblank
      refine ⟨pending, hspaces, ?_⟩
      rw [feed, List.foldl_cons, hreceive]
      exact hfeed
    · have hreceive : receive P s c r = { c with pending := c.pending ++ [r] } := by
        simp only [receive, hphase, if_neg hnew]
      obtain ⟨pending, hspaces, hfeed⟩ := @ih { c with pending := c.pending ++ [r] } hphase
        hpending' hblank
      refine ⟨pending, hspaces, ?_⟩
      rw [feed, List.foldl_cons, hreceive]
      exact hfeed

theorem calls_execute (cmdLine : Text) {info : CommandInfo} (hne : trimSpace cmdLine ≠ [])
    (hquit : trimSpace cmdLine ≠ quit)
    (hinfo : s.handlers.lookup (P.toLower ((fields (trimSpace cmdLine)).headD [])) = some info) :
    (execute P s c cmdLine).calls = c.calls ++
      [⟨P.toLower ((fields (trimSpace cmdLine)).headD []), (fields (trimSpace cmdLine)).tail⟩] := by
  have hcalls : (respond P s (trimSpace cmdLine)).2 =
      [⟨P.toLower ((fields (trimSpace cmdLine)).headD []), (fields (trimSpace cmdLine)).tail⟩] := by
    simp only [respond, hinfo]
    split
    · rfl
    · rfl
  simp only [execute, if_neg hne, if_neg hquit]
  split
  · rw [hcalls]
  · rw [hcalls]

theorem calls_feed_command (hphase : c.phase = .commands) (hpending : c.pending = [])
    (hcalls : c.calls = []) {command : Text} {info : CommandInfo} (hne : commandLine command ≠ [])
    (hquit : commandLine command ≠ quit)
    (hinfo : s.handlers.lookup (callOf P command).command = some info) :
    (feed P s c (command ++ [newline])).calls.head? = some (callOf P command) := by
  -- blank lines, then the line of the command, then what is left of the command
  let line := (command.dropWhile Rune.isSpace).takeWhile (· ≠ newline)
  have hline : newline ∉ line := newline_not_mem_takeWhile _
  have hblank : ∀ r ∈ command.takeWhile Rune.isSpace, r.isSpace = true :=
    fun _ hr => List.mem_takeWhile_imp hr
  obtain ⟨more, hmore⟩ := exists_line (command.dropWhile Rune.isSpace)
  have hsplit : command ++ [newline] =
      command.takeWhile Rune.isSpace ++ (line ++ newline :: more) := by
    rw [← hmore, ← List.append_assoc, List.takeWhile_append_dropWhile]
  obtain ⟨pending, hspaces, hfeed⟩ := feed_blank (P := P) (s := s) hphase
    (by rw [hpending]; exact fun _ hx => absurd hx List.not_mem_nil) hblank
  have htrim : trimSpace (pending ++ line ++ [newline]) = commandLine command := by
    rw [trimSpace_concat isSpace_newline, trimSpace_append_left hspaces]
    rfl
  rw [hsplit, feed_append, hfeed,
    feed_command_line (c := { c with pending := pending }) hphase hline]
  have hexec := calls_execute (P := P) (s := s) (c := { c with pending := [] })
    (pending ++ line ++ [newline]) (by rwa [htrim]) (by rwa [htrim]) (by rw [htrim]; exact hinfo)
  rw [htrim] at hexec
  obtain ⟨later, hlater⟩ := calls_feed (P := P) (s := s)
    (c := execute P s { c with pending := [] } (pending ++ line ++ [newline])) more
  rw [← hlater, hexec, hcalls]
  rfl

/-! ### The client -/

/-- A password that comes through: it is its own first line, trimmed. -/
structure Sendable (password : Text) : Prop where
  trimmed : trimSpace password = password
  oneLine : newline ∉ password

theorem completes_recvMessage (i : Incoming) : Completes (recvMessage i) := by
  simp only [recvMessage]
  split
  · exact completes_ok _
  · exact completes_ok _
  · next b i1 hread =>
    obtain ⟨b0, b1, b2, b3, rfl⟩ := List.length_eq_four.mp (Incoming.length_of_readFull hread)
    show Completes (if _ then _ else _)
    split
    · exact completes_ok _
    · split
      · exact completes_ok _
      · exact completes_ok _
      · exact completes_ok _

theorem exists_requestResponse (net : Delivery) (command : Text) :
    ∃ res, requestResponse P net s c command =
      .ok (feed P s c (command ++ [newline]), res) := by
  obtain ⟨⟨res, i⟩, hrecv⟩ := completes_recvMessage
    (net.cut ((feed P s c (command ++ [newline])).out.drop c.out.length))
  simp only [requestResponse, hrecv, ok_bind]
  cases res with
  | error err => exact ⟨_, rfl⟩
  | ok response => exact ⟨_, rfl⟩

theorem start_of_password (hpass : s.password ≠ []) : start s = ⟨.password, [], [], []⟩ := by
  rw [start, if_pos hpass]

theorem sendable_iff {password : Text} :
    Sendable password ↔ trimSpace (password.takeWhile (· ≠ newline)) = password := by
  constructor
  · intro h
    rw [takeWhile_ne_newline h.oneLine, h.trimmed]
  · intro h
    have hone : newline ∉ password := by
      intro hmem
      rw [← h] at hmem
      exact newline_not_mem_takeWhile _ (mem_of_mem_trimSpace hmem)
    rw [takeWhile_ne_newline hone] at h
    exact ⟨h, hone⟩

theorem feed_password (hpass : s.password ≠ []) :
    ∃ more, feed P s (start s) (s.password ++ [newline]) =
      feed P s (authenticate s (start s) (s.password.takeWhile (· ≠ newline))) more := by
  obtain ⟨more, hmore⟩ := exists_line s.password
  refine ⟨more, ?_⟩
  rw [hmore, start_of_password hpass, feed_password_line rfl (newline_not_mem_takeWhile _)]
  simp only [authenticate, List.nil_append, trimSpace_concat isSpace_newline]

theorem sendCommand_of_sendable (hpass : s.password ≠ []) (h : Sendable s.password)
    (net : Delivery) (command : Text) :
    sendCommand P net s ⟨s.password⟩ command =
      requestResponse P net s ⟨.commands, [], println okAuthString, []⟩
        (if command = [] then ofString "help" else command) := by
  have hfeed : feed P s (start s) (s.password ++ [newline]) =
      ⟨.commands, [], println okAuthString, []⟩ := by
    rw [start_of_password hpass, feed_password_line rfl h.oneLine, authenticate,
      trimSpace_concat isSpace_newline, List.nil_append, h.trimmed, if_neg (not_not.mpr rfl)]
    rfl
  have hresponse : (println okAuthString).takeWhile (· ≠ 10) = okAuthString := by decide
  have hlong : okAuthString.length ≠ (println okAuthString).length := by decide
  -- it is too long to be part of it
  have hok : ¬ Url.contains okAuthString nokAuthString = true := fun hpart =>
    absurd (Url.contains_iff.mp hpart).length_le (by decide)
  simp only [sendCommand, if_pos hpass, hfeed, hresponse, if_neg hlong, if_neg hok]

theorem sendCommand_of_not_sendable (hpass : s.password ≠ []) (h : ¬ Sendable s.password)
    (net : Delivery) (command : Text) :
    sendCommand P net s ⟨s.password⟩ command =
      .ok (⟨.closed, [], println nokAuthString, []⟩, .error .authFailure) := by
  obtain ⟨more, hmore⟩ := feed_password (P := P) hpass
  have hfeed : feed P s (start s) (s.password ++ [newline]) =
      ⟨.closed, [], println nokAuthString, []⟩ := by
    rw [hmore, start_of_password hpass, authenticate, if_pos (fun heq => h (sendable_iff.mpr heq)),
      feed_of_closed rfl]
    rfl
  have hresponse : (println nokAuthString).takeWhile (· ≠ 10) = nokAuthString := by decide
  have hlong : nokAuthString.length ≠ (println nokAuthString).length := by decide
  have hnok : Url.contains nokAuthString nokAuthString = true :=
    Url.contains_iff.mpr List.infix_rfl
  simp only [sendCommand, if_pos hpass, hfeed, hresponse, if_neg hlong, if_pos hnok]

/-- The command that is sent. -/
def effective (command : Text) : Text := if command = [] then ofString "help" else command

/-- **A client and a server with the same password understand each other exactly when that
password is one line without white space at its ends.** Then a command whose handler is
registered reaches it, with the arguments of its line; otherwise the client gets an
authentication failure and no handler is called. Whatever a client does, handlers are called
only after a first line that is the password when trimmed.
GOLINE: management/server.go:206-318, management/client.go:43-97 -/
theorem authentication_iff (P : Platform) (s : ManagementServer) (hpass : s.password ≠ []) :
    (∀ (net : Delivery) (command : Text) (info : CommandInfo),
      commandLine (effective command) ≠ [] → commandLine (effective command) ≠ quit →
      s.handlers.lookup (callOf P (effective command)).command = some info →
      ((∃ c res, sendCommand P net s ⟨s.password⟩ command = .ok (c, res) ∧
        c.calls.head? = some (callOf P (effective command))) ↔ Sendable s.password)) ∧
    (¬ Sendable s.password → ∀ (net : Delivery) (command : Text),
      ∃ c, sendCommand P net s ⟨s.password⟩ command = .ok (c, .error .authFailure) ∧
        c.calls = []) ∧
    ∀ events, (serve P s events).calls ≠ [] → Admitted s (events.flatMap Event.input) := by
  refine ⟨fun net command info hne hquit hinfo => ?_, fun h net command => ?_, fun events => ?_⟩
  · constructor
    · rintro ⟨c, res, hsend, hcall⟩
      by_contra h
      rw [sendCommand_of_not_sendable hpass h] at hsend
      cases hsend
      cases hcall
    · intro h
      obtain ⟨res, hres⟩ := exists_requestResponse (P := P) (s := s)
        (c := ⟨.commands, [], println okAuthString, []⟩) net (effective command)
      refine ⟨_, res, (sendCommand_of_sendable hpass h net command).trans hres, ?_⟩
      exact calls_feed_command rfl rfl rfl hne hquit hinfo
  · exact ⟨_, sendCommand_of_not_sendable hpass h net command, rfl⟩
  · exact (guarded_serve hpass events).calls

/-- Every byte comes by itself. -/
def bytewise : Delivery where
  cut b := ⟨b.map ([·]), by simp⟩
  rest_cut b := by
    show (b.map fun x => [x]).flatten = b
    rw [← List.flatMap_def, List.flatMap_singleton']

/-- A server that answers to `ping`. -/
def pinging (password : Text) : ManagementServer :=
  registerHandler ⟨id⟩ ⟨∅, password⟩ (ofString "ping") (ofString "check") fun _ =>
    .ok (ofString "pong")

theorem lookup_pinging (password : Text) :
    ∃ info, (pinging password).handlers.lookup (ofString "ping") = some info :=
  ⟨_, AList.lookup_insert _⟩

theorem authentication_iff_ping : (pinging (ofString "acme")).password ≠ [] ∧
    ∃ c res, sendCommand ⟨id⟩ bytewise (pinging (ofString "acme")) ⟨ofString "acme"⟩
      (ofString "ping") = .ok (c, res) ∧ c.calls.head? = some ⟨ofString "ping", []⟩ := by
  have hpass : (pinging (ofString "acme")).password ≠ [] := by decide
  obtain ⟨info, hinfo⟩ := lookup_pinging (ofString "acme")
  have hagree := (authentication_iff ⟨id⟩ (pinging (ofString "acme")) hpass).1 bytewise
    (ofString "ping") info (by decide) (by decide) hinfo
  exact ⟨hpass, hagree.mpr ⟨by decide, by decide⟩⟩

/-- With a space in front, the server does not recognise its own password. -/
theorem authFailure_space : sendCommand ⟨id⟩ bytewise (pinging (ofString " acme"))
    ⟨(pinging (ofString " acme")).password⟩ (ofString "ping") =
      .ok (⟨.closed, [], println nokAuthString, []⟩, .error .authFailure) := by
  have hspace : ¬ Sendable (pinging (ofString " acme")).password :=
    fun h => absurd h.trimmed (by decide)
  exact sendCommand_of_not_sendable (by decide) hspace bytewise (ofString "ping")

end Sessions

end N2nGo.Management
