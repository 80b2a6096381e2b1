import SirpairOs.Net.Dhcp

/-! Which addresses the DHCP client binds. The client follows its own protocol exactly if the
messages that arrive do: every ACK repeats the first OFFER. -/
namespace SirpairOs.Net

section EachAfter

variable {α : Type} {P : List α → α → Prop} {xs : List α} {x : α}

/-- `P` holds of every element and those before it. -/
def EachAfter (P : List α → α → Prop) (xs : List α) : Prop :=
  ∀ before x after, xs = before ++ x :: after → P before x

theorem eachAfter_nil : EachAfter P [] := by
  intro before x after split
  simp at split

theorem eachAfter_concat : EachAfter P (xs ++ [x]) ↔ EachAfter P xs ∧ P xs x := by
  constructor
  · intro each
    refine ⟨fun before y after split => ?_, each xs x [] rfl⟩
    exact each before y (after ++ [x]) (by rw [split, List.append_assoc, List.cons_append])
  · rintro ⟨each, last⟩ before y after split
    rcases List.eq_nil_or_concat after with rfl | ⟨front, z, rfl⟩
    · obtain ⟨rfl, same⟩ := List.append_inj' split rfl
      cases same
      exact last
    · rw [List.concat_eq_append, ← List.cons_append, ← List.append_assoc] at split
      exact each before y front (List.append_inj' split rfl).1

end EachAfter

/-! ### The messages of an acquisition -/

/-- The message that an event brings, if it passes the checks before the options. -/
def Event.messages (dev : NetDev) : Event → List (List UInt8)
  | .frame r => ((dhcpIn dev r).filter (dhcpAccepts dev)).toList
  | .retry => []

def messages (dev : NetDev) : List Event → List (List UInt8)
  | [] => []
  | event :: events => event.messages dev ++ messages (event.step dev) events

/-- An OFFER; without option 53 an address makes it one. -/
def isOffer (d : List UInt8) : Bool :=
  (dhcpOpts d).mtype = 2 ∨ (dhcpOpts d).mtype = 0 ∧ yiaddr d ≠ Bytes.zero

def isAck (d : List UInt8) : Bool := (dhcpOpts d).mtype = 5

/-- The ACK is for the OFFER, which names an address and a server. The server is that of option
54, or `siaddr`. -/
structure Answers (offer ack : List UInt8) : Prop where
  address : yiaddr ack = yiaddr offer
  server : dhcpServer ack = dhcpServer offer
  named : yiaddr offer ≠ Bytes.zero ∧ dhcpServer offer ≠ Bytes.zero

/-- Every ACK after the first OFFER answers it. -/
def Consistent : List (List UInt8) → Prop := EachAfter fun before ack =>
  isAck ack → ∀ offer, before.find? isOffer = some offer → Answers offer ack

/-- The client can transmit whenever it takes an OFFER. -/
def Transmits (start : NetDev) : List Event → Prop := EachAfter fun before event =>
  ∀ r d, event = .frame r → offerIn (netDhcpRun before start) r = some d →
    (netDhcpRun before start).initialized ∧
      (netDhcpRun before start).room (netDhcpRun before start).tries

variable {d : List UInt8} {dev dev' start : NetDev} {r : Received} {events : List Event} {ticks : Nat}

theorem messages_concat (events : List Event) (event : Event) (dev : NetDev) :
    messages dev (events ++ [event]) =
      messages dev events ++ event.messages (netDhcpRun events dev) := by
  induction events generalizing dev with
  | nil => exact List.append_nil _
  | cons first events ih =>
    rw [List.cons_append, messages, ih, ← List.append_assoc]
    rfl

theorem messages_frame (dev : NetDev) (r : Received) : (Event.frame r).messages dev = [] ∨ ∃ d,
    (Event.frame r).messages dev = [d] ∧ dhcpIn dev r = some d ∧ dhcpAccepts dev d := by
  rw [Event.messages]
  cases found : (dhcpIn dev r).filter (dhcpAccepts dev) with
  | none => exact .inl rfl
  | some d => exact .inr ⟨d, rfl, Option.filter_eq_some_iff.mp found⟩

theorem messages_eq (found : dhcpIn dev r = some d) (accepts : dhcpAccepts dev d) :
    (Event.frame r).messages dev = [d] := by
  rw [Event.messages, Option.filter_eq_some_iff.mpr ⟨found, accepts⟩]
  rfl

theorem takesOffer_iff (accepts : dhcpAccepts dev d) :
    takesOffer dev d ↔ isOffer d ∧ dev.dhcpStage = 1 := by
  simp only [takesOffer, isOffer, decide_eq_true_eq]
  unfold dhcpType
  split
  · rename_i untyped
    exact ⟨fun takes => ⟨.inr ⟨untyped.1, untyped.2.2⟩, takes.2.2⟩,
      fun takes => ⟨accepts, rfl, takes.2⟩⟩
  · rename_i typed
    refine ⟨fun takes => ⟨.inl takes.2.1, takes.2.2⟩, fun takes => ⟨accepts, ?_, takes.2⟩⟩
    exact takes.1.resolve_right fun untyped => typed ⟨untyped.1, takes.2, untyped.2⟩

theorem takesAck_iff (accepts : dhcpAccepts dev d) :
    takesAck dev d ↔ isAck d ∧ 2 ≤ dev.dhcpStage := by
  simp only [takesAck, isAck, decide_eq_true_eq]
  unfold dhcpType
  split
  · omega
  · exact ⟨fun takes => takes.2, fun takes => ⟨accepts, takes⟩⟩

theorem offerIn_iff (found : dhcpIn dev r = some d) (accepts : dhcpAccepts dev d) :
    offerIn dev r = some d ↔ isOffer d ∧ dev.dhcpStage = 1 := by
  rw [offerIn_eq_some, takesOffer_iff accepts]
  exact and_iff_right found

theorem ackIn_iff (found : dhcpIn dev r = some d) (accepts : dhcpAccepts dev d) :
    ackIn dev r = some d ↔ isAck d ∧ 2 ≤ dev.dhcpStage := by
  rw [ackIn_eq_some, takesAck_iff accepts]
  exact and_iff_right found

theorem Event.sent_le (event : Event) (dev : NetDev) : ∃ frames,
    (event.step dev).sent = dev.sent ++ frames := by
  have change := event.change dev
  generalize event.step dev = dev' at change ⊢
  cases change with
  | aside _ _ sends | offer _ sends | again _ sends =>
    obtain ⟨_, _, frames, rfl, _⟩ := sends
    exact ⟨frames, rfl⟩
  | ack _ => exact ⟨[], (List.append_nil _).symm⟩

theorem Asked.later {ip server : Ip} (asked : Asked start dev ip server) (event : Event) :
    Asked start (event.step dev) ip server := by
  obtain ⟨f, member, request⟩ := asked
  obtain ⟨frames, longer⟩ := event.sent_le dev
  refine ⟨f, ?_, request⟩
  rw [longer, List.drop_append]
  exact List.mem_append_left _ member

/-- What the client has made of the messages so far: it waits for an OFFER, or it has taken the
first one and sent a REQUEST for it. -/
structure Heard (start : NetDev) (ds : List (List UInt8)) (dev : NetDev) : Prop where
  waits : ds.find? isOffer = none → dev.dhcpStage = 1
  took : ∀ offer, ds.find? isOffer = some offer → 2 ≤ dev.dhcpStage ∧
    dev.dhcpOfferIp = yiaddr offer ∧ dev.dhcpServerIp = dhcpServer offer
  asked : ∀ offer, ds.find? isOffer = some offer →
    yiaddr offer ≠ Bytes.zero ∧ dhcpServer offer ≠ Bytes.zero →
    Asked start dev (yiaddr offer) (dhcpServer offer)

theorem Change.waiting {event : Event} (waits : dev.dhcpStage = 1) (change : Change dev event dev')
    (other : ∀ r d, event = .frame r → offerIn dev r ≠ some d) : dev'.dhcpStage = 1 := by
  cases change with
  | aside _ _ sends =>
    obtain ⟨_, _, _, rfl, _⟩ := sends
    exact waits
  | offer found _ => exact absurd found (other _ _ rfl)
  | ack found =>
    have takes := (ackIn_eq_some.mp found).2
    simp only [takesAck, decide_eq_true_eq] at takes
    omega
  | again late _ => omega

/-- The first OFFER is taken, and a REQUEST is sent if it can be formed. -/
theorem Heard.offer {ds : List (List UInt8)} (none : ds.find? isOffer = none)
    (long : start.sent.length ≤ dev.sent.length) (found : offerIn dev r = some d)
    (ready : dev.initialized ∧ dev.room dev.tries) :
    Heard start (ds ++ [d]) ((Event.frame r).step dev) := by
  obtain ⟨arrived, takes⟩ := offerIn_eq_some.mp found
  have accepts : dhcpAccepts dev d := by
    simp only [takesOffer, decide_eq_true_eq] at takes
    exact takes.1
  have offers := ((takesOffer_iff accepts).mp takes).1
  have first : (ds ++ [d]).find? isOffer = some d := by
    rw [List.find?_append, none, Option.none_or, List.find?_singleton, offers, if_pos rfl]
  rw [Event.step, netProcessFrame_dhcp arrived]
  refine ⟨fun absent => absurd (first.symm.trans absent) (Option.some_ne_none d),
    fun offer is => ?_, fun offer is named => ?_⟩
  · obtain rfl := Option.some.inj (first.symm.trans is)
    obtain ⟨_, _, _, eq, _⟩ := netHandleDhcp_offer takes
    rw [eq]
    exact ⟨Nat.le_refl 2, rfl, rfl⟩
  · obtain rfl := Option.some.inj (first.symm.trans is)
    obtain ⟨f, member, request⟩ := netHandleDhcp_requested takes named ready.1 ready.2
    exact ⟨f, List.drop_subset_drop_left _ long member, request⟩

theorem Heard.step {ds : List (List UInt8)} (heard : Heard start ds dev) (event : Event)
    (long : start.sent.length ≤ dev.sent.length)
    (ready : ∀ r d, event = .frame r → offerIn dev r = some d →
      dev.initialized ∧ dev.room dev.tries) :
    Heard start (ds ++ event.messages dev) (event.step dev) := by
  cases first : ds.find? isOffer with
  | some offer =>
    -- the OFFER that was taken stays the one
    have same : (ds ++ event.messages dev).find? isOffer = some offer := by
      rw [List.find?_append, first, Option.some_or]
    obtain ⟨late, address, server⟩ := heard.took offer first
    have settled := (event.change dev).settled late
    refine ⟨fun absent => absurd (same.symm.trans absent) (Option.some_ne_none offer),
      fun other is => ?_, fun other is named => ?_⟩
    · obtain rfl := Option.some.inj (same.symm.trans is)
      exact ⟨settled.stage, settled.offer.1.trans address, settled.offer.2.trans server⟩
    · obtain rfl := Option.some.inj (same.symm.trans is)
      exact (heard.asked _ first named).later event
  | none =>
    have waits := heard.waits first
    by_cases taken : ∃ r d, event = .frame r ∧ offerIn dev r = some d
    · obtain ⟨r, d, rfl, found⟩ := taken
      obtain ⟨arrived, takes⟩ := offerIn_eq_some.mp found
      simp only [takesOffer, decide_eq_true_eq] at takes
      rw [messages_eq arrived takes.1]
      exact .offer first long found (ready r d rfl found)
    · have other (r : Received) (d : List UInt8) (is : event = .frame r) : offerIn dev r ≠ some d :=
        fun found => taken ⟨r, d, is, found⟩
      have still : (ds ++ event.messages dev).find? isOffer = none := by
        rw [List.find?_append, first, Option.none_or]
        apply List.find?_eq_none.mpr
        intro d member offers
        cases event with
        | retry => cases member
        | frame r =>
          obtain ⟨arrived, accepts⟩ := Option.filter_eq_some_iff.mp (Option.mem_toList.mp member)
          exact other r d rfl ((offerIn_iff arrived accepts).mpr ⟨offers, waits⟩)
      exact ⟨fun _ => (event.change dev).waiting waits other,
        fun offer is => absurd (is.symm.trans still) (Option.some_ne_none offer),
        fun offer is => absurd (is.symm.trans still) (Option.some_ne_none offer)⟩

theorem heard_run (transmits : Transmits (netDhcpBegin ticks dev) events) :
    Heard (netDhcpBegin ticks dev) (messages (netDhcpBegin ticks dev) events)
      (netDhcpRun events (netDhcpBegin ticks dev)) := by
  induction events using List.reverseRecOn with
  | nil =>
    have empty : (messages (netDhcpBegin ticks dev) []).find? isOffer = none := List.find?_nil
    rw [netDhcpRun_nil]
    exact ⟨fun _ => netDhcpBegin_stage ticks dev,
      fun offer is => absurd (is.symm.trans empty) (Option.some_ne_none offer),
      fun offer is => absurd (is.symm.trans empty) (Option.some_ne_none offer)⟩
  | append_singleton events event ih =>
    obtain ⟨before, ready⟩ := eachAfter_concat.mp transmits
    rw [messages_concat, netDhcpRun_concat]
    exact (ih before).step event (Acquiring.run ticks dev events).sent ready

/-! ### What is bound -/

/-- Every ACK that is taken repeats the address and the server of a REQUEST that was sent. -/
def AcksAnswer (start : NetDev) : List Event → Prop := EachAfter fun before event =>
  ∀ r d, event = .frame r → ackIn (netDhcpRun before start) r = some d →
    Asked start (netDhcpRun before start) (yiaddr d) (dhcpServer d)

theorem acksAnswer_iff (transmits : Transmits (netDhcpBegin ticks dev) events) :
    AcksAnswer (netDhcpBegin ticks dev) events ↔
      Consistent (messages (netDhcpBegin ticks dev) events) := by
  induction events using List.reverseRecOn with
  | nil => exact ⟨fun _ => eachAfter_nil, fun _ => eachAfter_nil⟩
  | append_singleton events event ih =>
    have known := Acquiring.run ticks dev events
    have before := (eachAfter_concat.mp transmits).1
    have heard := heard_run before
    rw [AcksAnswer, eachAfter_concat, ← AcksAnswer, ih before, messages_concat]
    cases event with
    | retry =>
      rw [Event.messages, List.append_nil]
      exact and_iff_left fun _ _ => nofun
    | frame r =>
      rcases messages_frame (netDhcpRun events (netDhcpBegin ticks dev)) r with
        empty | ⟨d, single, arrived, accepts⟩
      · rw [empty, List.append_nil]
        refine and_iff_left fun r' d same found => ?_
        cases same
        obtain ⟨arrived, takes⟩ := ackIn_eq_some.mp found
        simp only [takesAck, decide_eq_true_eq] at takes
        cases empty.symm.trans (messages_eq arrived takes.1)
      · rw [single, Consistent, eachAfter_concat]
        refine and_congr_right fun _ => ⟨fun answer acks offer first => ?_, fun answer => ?_⟩
        · obtain ⟨late, address, server⟩ := heard.took offer first
          have asked := answer r d rfl ((ackIn_iff arrived accepts).mpr ⟨acks, late⟩)
          obtain ⟨_, same, name, named⟩ := known.asked _ _ asked
          rw [same, name, address, server] at named
          exact ⟨same.trans address, name.trans server, named⟩
        · intro r' d' same found
          cases same
          obtain rfl := Option.some.inj (arrived.symm.trans (ackIn_eq_some.mp found).1)
          obtain ⟨acks, late⟩ := (ackIn_iff arrived accepts).mp found
          cases first : (messages (netDhcpBegin ticks dev) events).find? isOffer with
          | none =>
            have waits := heard.waits first
            omega
          | some offer =>
            have answers := answer acks offer first
            rw [answers.address, answers.server]
            exact heard.asked offer first answers.named

/-- Then the client is configured with the address that it was offered. -/
theorem AcksAnswer.bound (answer : AcksAnswer (netDhcpBegin ticks dev) events)
    (ok : (netDhcpRun events (netDhcpBegin ticks dev)).dhcpOk) :
    (netDhcpRun events (netDhcpBegin ticks dev)).ip =
      (netDhcpRun events (netDhcpBegin ticks dev)).dhcpOfferIp := by
  induction events using List.reverseRecOn with
  | nil =>
    rw [netDhcpRun_nil, netDhcpBegin_ok] at ok
    cases ok
  | append_singleton events event ih =>
    have known := Acquiring.run ticks dev events
    obtain ⟨front, last⟩ := eachAfter_concat.mp answer
    have before := ih front
    have change := event.change (netDhcpRun events (netDhcpBegin ticks dev))
    rw [netDhcpRun_concat] at ok ⊢
    generalize event.step (netDhcpRun events (netDhcpBegin ticks dev)) = dev' at ok change ⊢
    cases change with
    | aside _ _ sends | again _ sends =>
      obtain ⟨_, _, _, rfl, _⟩ := sends
      exact before ok
    | offer found sends =>
      have takes := (offerIn_eq_some.mp found).2
      simp only [takesOffer, decide_eq_true_eq] at takes
      obtain ⟨_, _, _, rfl, _⟩ := sends
      have late := (known.configured ok).1
      omega
    | @ack r d found => exact (known.asked _ _ (last r d rfl found)).2.1

/-- The client binds only what it was offered and requested. -/
structure BindsRequested (start : NetDev) (events : List Event) : Prop where
  /-- An ACK that is taken configures the client with an address that it was offered and that it
  requested of the server of the ACK. -/
  binds : ∀ before r after d, events = before ++ .frame r :: after →
    ackIn (netDhcpRun before start) r = some d → (netDhcpRun (before ++ [.frame r]) start).dhcpOk ∧
      (netDhcpRun (before ++ [.frame r]) start).ip = yiaddr d ∧ yiaddr d ≠ Bytes.zero ∧
      Requested start before (yiaddr d) (dhcpServer d)
  /-- Nothing else configures it. -/
  configured : ∀ before after, events = before ++ after → (netDhcpRun before start).dhcpOk →
    Arrived ackIn (fun d => yiaddr d = (netDhcpRun before start).ip) start before
  /-- Later frames do not change the address. -/
  stays : ∀ before after, events = before ++ after → (netDhcpRun before start).dhcpOk →
    (netDhcpRun events start).dhcpOk ∧ (netDhcpRun events start).ip = (netDhcpRun before start).ip

theorem BindsRequested.of_answer (answer : AcksAnswer (netDhcpBegin ticks dev) events) :
    BindsRequested (netDhcpBegin ticks dev) events := by
  refine ⟨fun before r after d split found => ?_, fun before after _ ok =>
    ((Acquiring.run ticks dev before).configured ok).2, fun before after split ok => ?_⟩
  · have known := Acquiring.run ticks dev before
    have asked := answer before (.frame r) after split r d rfl found
    obtain ⟨late, address, name, nonzero⟩ := known.asked _ _ asked
    rw [netDhcpRun_concat, Event.step, netProcessFrame_dhcp (ackIn_eq_some.mp found).1,
      netHandleDhcp_ack (ackIn_eq_some.mp found).2, Requested, address, name]
    exact ⟨rfl, address, address ▸ nonzero.1, known.offered late, address ▸ name ▸ asked⟩
  · subst split
    have late := ((Acquiring.run ticks dev before).configured ok).1
    have settled := settled_run late after
    rw [← netDhcpRun_append] at settled
    have front : AcksAnswer (netDhcpBegin ticks dev) before := by
      intro early event rest split
      exact answer early event (rest ++ after) (by rw [split, List.append_assoc, List.cons_append])
    exact ⟨settled.ok ok, by rw [answer.bound (settled.ok ok), settled.offer.1, front.bound ok]⟩

/-- As long as the client can transmit when it takes an OFFER, it binds only what it was offered
and requested exactly if every ACK after the first OFFER answers that OFFER. -/
theorem bindsRequested_iff (ticks : Nat) (dev : NetDev) (events : List Event)
    (transmits : Transmits (netDhcpBegin ticks dev) events) :
    BindsRequested (netDhcpBegin ticks dev) events ↔
      Consistent (messages (netDhcpBegin ticks dev) events) := by
  rw [← acksAnswer_iff transmits]
  constructor
  · intro property before event after split r d same found
    subst same
    exact (property.binds before r after d split found).2.2.2.2
  · exact .of_answer

theorem eachAfter_pair {α : Type} {P : List α → α → Prop} {x y : α} (first : P [] x)
    (second : P [x] y) : EachAfter P [x, y] := by
  have single : EachAfter P ([] ++ [x]) := eachAfter_concat.mpr ⟨eachAfter_nil, first⟩
  have both : EachAfter P ([x] ++ [y]) := eachAfter_concat.mpr ⟨single, second⟩
  exact both

theorem consistent_pair {offer ack : List UInt8} (answers : Answers offer ack) :
    Consistent [offer, ack] := by
  apply eachAfter_pair
  · intro _ other absent
    cases absent
  · intro _ other first
    obtain rfl := List.mem_singleton.mp (List.mem_of_find?_eq_some first)
    exact answers

def answer : Received := serverFrame 0x4D434256 5 (host 15) (host 2)

/-- The server that made the OFFER acknowledges it. -/
theorem bindsRequested_answered :
    (netDhcpRun [.frame offerFrame, .frame answer] begun).dhcpOk ∧
      (netDhcpRun [.frame offerFrame, .frame answer] begun).ip = host 15 ∧
      BindsRequested begun [.frame offerFrame, .frame answer] := by
  have seen : (netDhcpRun [.frame offerFrame, .frame answer] begun).dhcpOk ∧
      (netDhcpRun [.frame offerFrame, .frame answer] begun).ip = host 15 ∧
      (begun.initialized ∧ begun.room begun.tries) ∧
      ((netDhcpRun [.frame offerFrame] begun).initialized ∧
        (netDhcpRun [.frame offerFrame] begun).room (netDhcpRun [.frame offerFrame] begun).tries) ∧
      dhcpAccepts begun (serverMessage 0x4D434256 2 (host 15) (host 2)) ∧
      dhcpAccepts (netDhcpRun [.frame offerFrame] begun)
        (serverMessage 0x4D434256 5 (host 15) (host 2)) := by
    decide +kernel
  obtain ⟨ok, ip, ready, ready', accepts, accepts'⟩ := seen
  have transmits : Transmits begun [.frame offerFrame, .frame answer] := by
    apply eachAfter_pair
    · intro r d same taken
      rw [netDhcpRun_nil]
      exact ready
    · exact fun _ _ _ _ => ready'
  have arrived : messages begun [.frame offerFrame, .frame answer] =
      [serverMessage 0x4D434256 2 (host 15) (host 2),
        serverMessage 0x4D434256 5 (host 15) (host 2)] := by
    rw [messages, messages, messages, ← netDhcpRun_singleton, offerFrame,
      messages_eq (dhcpIn_serverFrame ..) accepts, ← offerFrame, answer,
      messages_eq (dhcpIn_serverFrame ..) accepts']
    rfl
  have answers : Answers (serverMessage 0x4D434256 2 (host 15) (host 2))
      (serverMessage 0x4D434256 5 (host 15) (host 2)) := by
    have some : host 2 ≠ Bytes.zero := by decide
    refine ⟨?_, ?_, ?_⟩
    · rw [(serverMessage_spec ..).1, (serverMessage_spec ..).1]
    · rw [dhcpServer_serverMessage _ _ _ some, dhcpServer_serverMessage _ _ _ some]
    · rw [(serverMessage_spec ..).1, dhcpServer_serverMessage _ _ _ some]
      exact ⟨by decide, some⟩
  refine ⟨ok, ip, (bindsRequested_iff 0 NetDev.fresh _ transmits).mpr ?_⟩
  rw [← begun, arrived]
  exact consistent_pair answers

def strayAck : Received := serverFrame 0x4D434256 5 (host 99) (host 3)

/-- An address that nobody offered is bound: the server `10.0.2.3` acknowledges `10.0.2.99` after
the client has requested `10.0.2.15` of the server `10.0.2.2`. -/
theorem binds_unrequested : (netDhcpRun [.frame offerFrame, .frame strayAck] begun).dhcpOk ∧
      (netDhcpRun [.frame offerFrame, .frame strayAck] begun).ip = host 99 ∧
      ((netDhcpRun [.frame offerFrame, .frame strayAck] begun).sent.drop begun.sent.length).map
        requestOf = [some (host 15, host 2)] ∧
      ¬ BindsRequested begun [.frame offerFrame, .frame strayAck] := by
  have seen : ((netDhcpRun [.frame offerFrame, .frame strayAck] begun).dhcpOk ∧
      (netDhcpRun [.frame offerFrame, .frame strayAck] begun).ip = host 99 ∧
      ((netDhcpRun [.frame offerFrame, .frame strayAck] begun).sent.drop begun.sent.length).map
        requestOf = [some (host 15, host 2)]) ∧
      takesAck (netDhcpRun [.frame offerFrame] begun) (serverMessage 0x4D434256 5 (host 99) (host 3)) ∧
      ((netDhcpRun [.frame offerFrame] begun).sent.drop begun.sent.length).map requestOf =
        [some (host 15, host 2)] := by decide +kernel
  obtain ⟨⟨ok, ip, sent⟩, takes, before⟩ := seen
  refine ⟨ok, ip, sent, fun property => ?_⟩
  have found := ackIn_eq_some.mpr ⟨dhcpIn_serverFrame _ 0x4D434256 5 (host 99) (host 3), takes⟩
  obtain ⟨f, member, request⟩ := (property.binds [.frame offerFrame] strayAck [] _ rfl found).2.2.2.2
  have listed := List.mem_map_of_mem (f := requestOf) member
  rw [before, request, List.mem_singleton, (serverMessage_spec ..).1] at listed
  exact absurd (congrArg (Option.map Prod.fst) listed) (by decide)

end SirpairOs.Net
