import LearnGit.Native.RedisClient

/-!
# The messages of the subscriber

The loop looks at one reply after each `poll`, and it does not look at what `redisCommand`
returns. A message is lost if it is the next reply when a command is sent, and it is late if
hiredis reads it together with the reply before. Where neither happens, and no payload has a
zero byte, the callback gets every message.

## Key results

- `Tracked.step`: the replies returned so far and what hiredis makes of its buffer are what has
  been read
- `Tracked.good_step_iff`: the steps after which the callback still has all messages returned
- `handedOn_of_run`: the runs in which no message is missing whenever the loop is blocked
-/

namespace Chat

open ChunkedStream ChunkedStream.Decoder Transition

/-- A message, as the callback has to get it. -/
def RedisReply.push? : RedisReply → Option (Int × Bytes)
  | .array [some type, some channel, some payload] =>
    if columnString type = messageType then some (atoi channel, payload) else none
  | _ => none

def pushes (rs : List RedisReply) : List (Int × Bytes) := rs.filterMap RedisReply.push?

@[simp] theorem pushes_append (rs rs' : List RedisReply) :
    pushes (rs ++ rs') = pushes rs ++ pushes rs' := List.filterMap_append

theorem pushes_singleton (r : RedisReply) : pushes [r] = r.push?.toList := by
  cases hpush : r.push? <;> simp [pushes, hpush]

namespace Subscriber

variable {D : Decoder UInt8 RedisReply} {s s' : Subscriber} {e : SubEvent}

/-! ## Steps -/

/-- The message as the callback gets it. -/
def cut (p : Int × Bytes) : Int × Bytes := (p.1, columnString p.2)

theorem handleReply_callbacks (s : Subscriber) (r : RedisReply) :
    (s.handleReply r).callbacks = s.callbacks ++ (r.push?.map cut).toList := by
  unfold handleReply RedisReply.push?
  split
  · next type channel payload =>
    cases type with
    | none => simp
    | some type =>
      by_cases htype : columnString type = messageType
      · cases channel <;> cases payload <;> simp [htype, cut]
      · cases channel <;> cases payload <;> simp [htype]
  · next hother =>
    split
    · next type channel payload => exact absurd rfl (hother _ _ _)
    · simp

/-- The parts of the state that the reply does not depend on. -/
theorem handleReply_frame (s : Subscriber) (r : RedisReply) :
    (s.handleReply r).socket = s.socket ∧ (s.handleReply r).reader = s.reader ∧
      (s.handleReply r).received = s.received ∧ (s.handleReply r).replies = s.replies := by
  unfold handleReply
  split
  · split
    · simp
    · split
      · split <;> simp
      · simp
  · simp

/-- Nothing has been read, returned or handed on. -/
structure Keeps (s s' : Subscriber) : Prop where
  socket : s'.socket = s.socket
  reader : s'.reader = s.reader
  received : s'.received = s.received
  replies : s'.replies = s.replies
  callbacks : s'.callbacks = s.callbacks

/-- A reply has been returned, to a command or to be looked at. -/
structure Returns (D : Decoder UInt8 RedisReply) (s s' : Subscriber) (r : RedisReply) : Prop where
  next : D.next s.reader = .item r s'.reader
  socket : s'.socket = s.socket
  received : s'.received = s.received
  replies : s'.replies = s.replies ++ [r]
  callbacks : ((∃ req, s.phase = .command req) ∧ s'.callbacks = s.callbacks) ∨
    (s.phase = .getReply ∧ s'.callbacks = s.callbacks ++ (r.push?.map cut).toList)

theorem returned_cases (hstep : s.returned D = some s') :
    (∃ r, Returns D s s' r) ∨
      (Keeps s s' ∧ ∀ r rest, D.next s.reader ≠ .item r rest) := by
  unfold returned at hstep
  split at hstep
  · next req hphase =>
    split at hstep
    · next r rest hnext =>
      cases hstep
      exact .inl ⟨r, hnext, rfl, rfl, rfl, .inl ⟨⟨req, hphase⟩, rfl⟩⟩
    · next hnext =>
      cases hstep
      exact .inr ⟨⟨rfl, rfl, rfl, rfl, rfl⟩, by simp [hnext]⟩
    · cases hstep
  · next hphase =>
    split at hstep
    · next r rest hnext =>
      cases hstep
      obtain ⟨hsocket, hreader, hreceived, hreplies⟩ :=
        handleReply_frame { s with reader := rest, replies := s.replies ++ [r] } r
      exact .inl ⟨r, hreader ▸ hnext, hsocket, hreceived, hreplies,
        .inr ⟨hphase, handleReply_callbacks _ r⟩⟩
    · next hnext =>
      cases hstep
      exact .inr ⟨⟨rfl, rfl, rfl, rfl, rfl⟩, by simp [hnext]⟩
    · cases hstep
  · cases hstep

/-- The loop is in a call of hiredis. -/
def calling (s : Subscriber) : Bool :=
  match s.phase with
  | .command _ | .getReply => true
  | _ => false

/-- What a step can do to the stream: bytes arrive, hiredis reads some, it returns a reply, or
    nothing happens to it. -/
inductive Effect (D : Decoder UInt8 RedisReply) (s : Subscriber) : SubEvent → Subscriber → Prop
  | arrive (bytes : Bytes) : Effect D s (.arrive bytes)
      { s with socket := s.socket ++ bytes, received := s.received ++ bytes }
  | read (n : Nat) (hnext : D.next s.reader = .wait) (hcalling : s.calling = true) :
      Effect D s (.read n)
        { s with socket := s.socket.drop n, reader := s.reader ++ s.socket.take n }
  | returned {s' : Subscriber} (r : RedisReply) (hr : Returns D s s' r) : Effect D s .returned s'
  | keeps {e : SubEvent} {s' : Subscriber} (hk : Keeps s s')
      (hcalling : s.calling = true → s'.calling = true ∨ e = .returned)
      (hnone : e = .returned → ∀ r rest, D.next s.reader ≠ .item r rest) : Effect D s e s'

/-- A step of the loop alone, without hiredis. -/
theorem Effect.control {phase : SubPhase} {cmdQueue : List CmdRequest}
    {done : List (CmdRequest × Bool)} (hphase : s.phase = phase ∨ s.calling = false)
    (he : e ≠ .returned) :
    Effect D s e { s with phase := phase, cmdQueue := cmdQueue, done := done } := by
  refine .keeps ⟨rfl, rfl, rfl, rfl, rfl⟩ (fun hcalling => ?_) fun h => absurd h he
  cases hphase with
  | inl hsame => exact .inl (hsame ▸ hcalling)
  | inr hidle => rw [hidle] at hcalling; cases hcalling

theorem step_effect (hstep : s.step D e = some s') : Effect D s e s' := by
  cases e with
  | arrive bytes =>
    cases hstep
    exact .arrive bytes
  | read n =>
    simp only [step] at hstep
    split at hstep
    · -- hiredis reads on only as long as it has no complete reply
      next hread =>
      cases hstep
      have hwaiting := hread.1
      unfold waiting at hwaiting
      split at hwaiting
      · next hphase hnext => exact .read n hnext (by simp [calling, hphase])
      · next hphase hnext => exact .read n hnext (by simp [calling, hphase])
      · cases hwaiting
    · cases hstep
  | returned =>
    cases returned_cases hstep with
    | inl hreturns =>
      obtain ⟨r, hr⟩ := hreturns
      exact .returned r hr
    | inr hkeeps =>
      obtain ⟨hk, hnone⟩ := hkeeps
      exact .keeps hk (fun _ => .inr rfl) fun _ => hnone
  | push req =>
    simp only [step] at hstep
    split at hstep
    · cases hstep
    · cases hstep
      exact .control (.inl rfl) nofun
  | redisCommand =>
    simp only [step] at hstep
    split at hstep
    · next req rest hphase hqueue =>
      cases hstep
      exact .control (.inr (by simp [calling, hphase])) nofun
    · cases hstep
  | callPoll =>
    obtain ⟨hwhere, hstep⟩ := Option.ite_none_right_eq_some.mp hstep
    cases hstep
    exact .control (.inr (by simp [calling, hwhere.1])) nofun
  | lock =>
    obtain ⟨hphase, hstep⟩ := Option.ite_none_right_eq_some.mp hstep
    cases hstep
    exact .control (.inr (by simp [calling, hphase])) nofun
  | timeout =>
    obtain ⟨hwhere, hstep⟩ := Option.ite_none_right_eq_some.mp hstep
    cases hstep
    exact .control (.inr (by simp [calling, hwhere.1])) nofun
  | readable =>
    obtain ⟨hwhere, hstep⟩ := Option.ite_none_right_eq_some.mp hstep
    cases hstep
    exact .control (.inr (by simp [calling, hwhere.1])) nofun
  | pollFailed =>
    obtain ⟨hphase, hstep⟩ := Option.ite_none_right_eq_some.mp hstep
    cases hstep
    exact .keeps ⟨rfl, rfl, rfl, rfl, rfl⟩ (by simp [calling, hphase]) nofun

/-! ## The stream -/

/-- What has been read is what hiredis has returned and what is in its buffer, and no more
    messages are handed on than are returned. -/
structure Tracked (D : Decoder UInt8 RedisReply) (s : Subscriber) : Prop where
  stream : ∃ bytes, s.received = bytes ++ s.socket ∧
    D.split bytes = (s.replies ++ (D.split s.reader).1, (D.split s.reader).2)
  le : s.callbacks.length ≤ (pushes s.replies).length

theorem Tracked.start : Tracked D {} where
  stream := ⟨[], rfl, by simp⟩
  le := Nat.le_refl _

theorem Tracked.step (hs : Tracked D s) (hstep : s.step D e = some s') : Tracked D s' := by
  obtain ⟨bytes, hreceived, hsplit⟩ := hs.stream
  cases step_effect hstep with
  | arrive more =>
    refine ⟨⟨bytes, ?_, hsplit⟩, hs.le⟩
    show s.received ++ more = bytes ++ (s.socket ++ more)
    rw [hreceived, List.append_assoc]
  | read n hnext hcalling =>
    -- hiredis has had no complete reply, so the new ones are those of the longer buffer
    have hreader : D.split s.reader = ([], s.reader) :=
      split_stop fun a rest heq => by rw [hnext] at heq; cases heq
    refine ⟨⟨bytes ++ s.socket.take n, ?_, ?_⟩, hs.le⟩
    · show s.received = bytes ++ s.socket.take n ++ s.socket.drop n
      rw [List.append_assoc, List.take_append_drop, hreceived]
    · rw [split_append, hsplit, hreader]
      simp
  | returned r hr =>
    refine ⟨⟨bytes, ?_, ?_⟩, ?_⟩
    · rw [hr.received, hr.socket, hreceived]
    · rw [hsplit, split_item hr.next, hr.replies]
      simp
    · rw [hr.replies, pushes_append, List.length_append, pushes_singleton]
      cases hr.callbacks with
      | inl hcommand =>
        rw [hcommand.2]
        exact hs.le.trans (Nat.le_add_right _ _)
      | inr hreply =>
        have hlength : (r.push?.map cut).toList.length = r.push?.toList.length := by
          cases r.push? <;> rfl
        rw [hreply.2, List.length_append, hlength]
        exact Nat.add_le_add_right hs.le _
  | keeps hk hcalling hnone =>
    refine ⟨⟨bytes, ?_, ?_⟩, ?_⟩
    · rw [hk.received, hk.socket, hreceived]
    · rw [hk.replies, hk.reader, hsplit]
    · rw [hk.callbacks, hk.replies]
      exact hs.le

/-! ## What the callback has -/

/-- The callback has every message that hiredis has returned. -/
def Good (s : Subscriber) : Prop := s.callbacks = pushes s.replies

/-- Every message that has arrived in full has been passed to the callback, once and in
    order. -/
def HandedOn (D : Decoder UInt8 RedisReply) (s : Subscriber) : Prop :=
  s.callbacks = pushes (D.split s.received).1

/-- Whenever the loop is blocked, no message is missing. -/
def HandsOn (D : Decoder UInt8 RedisReply) (s : Subscriber) : Prop := s.Blocked → HandedOn D s

/-- The reply at the front of the buffer can be returned: it is no message that a command takes
    for its reply, and no message with a zero byte. -/
def ReplySafe (D : Decoder UInt8 RedisReply) (s : Subscriber) : Prop :=
  match s.phase, D.next s.reader with
  | .command _, .item r _ => r.push? = none
  | .getReply, .item r _ => ∀ p ∈ r.push?, 0 ∉ p.2
  | _, _ => True

/-- The condition on a step: the reply that is returned is safe, and no message is complete
    behind the first reply in what hiredis reads at once. -/
def Meets (D : Decoder UInt8 RedisReply) (_h : List (Subscriber × SubEvent)) (s : Subscriber) :
    SubEvent → Prop
  | .returned => ReplySafe D s
  | .read n => pushes (D.split (s.reader ++ s.socket.take n)).1.tail = []
  | _ => True

instance (D : Decoder UInt8 RedisReply) (s : Subscriber) : Decidable (HandedOn D s) :=
  inferInstanceAs (Decidable (_ = _))

instance (D : Decoder UInt8 RedisReply) (s : Subscriber) : Decidable (ReplySafe D s) := by
  unfold ReplySafe
  split <;> infer_instance

instance (D : Decoder UInt8 RedisReply) (h : List (Subscriber × SubEvent)) (s : Subscriber)
    (e : SubEvent) : Decidable (Meets D h s e) := by
  cases e <;> unfold Meets <;> infer_instance

theorem cut_eq_self_iff {p : Int × Bytes} : cut p = p ↔ 0 ∉ p.2 := by
  constructor
  · intro hcut
    have htext : columnString p.2 = p.2 := congrArg Prod.snd hcut
    rw [← htext]
    exact zero_notMem_columnString p.2
  · intro hzero
    rw [cut, columnString_of_notMem hzero]

/-- After a reply the callback has all messages exactly if it had them before and the reply was
    safe. -/
theorem Returns.good_iff (hs : Tracked D s) {r : RedisReply} (hr : Returns D s s' r) :
    Good s' ↔ Good s ∧ ReplySafe D s := by
  have hsafe : ReplySafe D s ↔
      ((∃ req, s.phase = .command req) → r.push? = none) ∧
        (s.phase = .getReply → ∀ p ∈ r.push?, 0 ∉ p.2) := by
    unfold ReplySafe
    rw [hr.next]
    cases s.phase <;> simp
  rw [hsafe, Good, hr.replies, pushes_append, pushes_singleton]
  cases hr.callbacks with
  | inl hcommand =>
    obtain ⟨⟨req, hphase⟩, hcallbacks⟩ := hcommand
    rw [hcallbacks, hphase]
    cases hpush : r.push? with
    | none => simp [Good]
    | some p =>
      -- no message is ever added that is not returned, so the lost one stays missing
      refine iff_of_false (fun heq => ?_) (by simp)
      have hle := hs.le
      rw [heq, List.length_append, Option.toList_some, List.length_singleton] at hle
      omega
  | inr hreply =>
    obtain ⟨hphase, hcallbacks⟩ := hreply
    rw [hcallbacks, hphase]
    cases hpush : r.push? with
    | none => simp [Good]
    | some p => simp [Good, ← cut_eq_self_iff]

/-- Nothing but the return of a reply makes a difference to this. -/
theorem Tracked.good_step_iff (hs : Tracked D s) (hstep : s.step D e = some s') :
    Good s' ↔ Good s ∧ (e = .returned → ReplySafe D s) := by
  cases step_effect hstep with
  | arrive bytes => simp [Good]
  | read n hnext hcalling => simp [Good]
  | returned r hr => simpa using hr.good_iff hs
  | keeps hk hcalling hnone =>
    have hsafe : e = .returned → ReplySafe D s := by
      intro he
      unfold ReplySafe
      split
      · next hnext => exact absurd hnext (hnone he _ _)
      · next hnext => exact absurd hnext (hnone he _ _)
      · trivial
    rw [Good, hk.callbacks, hk.replies]
    exact ⟨fun hgood => ⟨hgood, hsafe⟩, fun h => h.1⟩

/-! ## Blocked in poll -/

/-- Where the loop is blocked, nothing is missing exactly if all messages that have been
    returned are handed on and none is left in the buffer of hiredis. -/
theorem Tracked.handedOn_iff (hs : Tracked D s) (hsocket : s.socket = []) :
    HandedOn D s ↔ Good s ∧ pushes (D.split s.reader).1 = [] := by
  obtain ⟨bytes, hreceived, hsplit⟩ := hs.stream
  rw [hsocket, List.append_nil] at hreceived
  rw [HandedOn, hreceived, hsplit, pushes_append]
  constructor
  · intro heq
    have hle := hs.le
    rw [heq, List.length_append] at hle
    have hnil : pushes (D.split s.reader).1 = [] := List.length_eq_zero_iff.mp (by omega)
    rw [hnil, List.append_nil] at heq
    exact ⟨heq, hnil⟩
  · rintro ⟨hgood, hnil⟩
    rw [hnil, List.append_nil]
    exact hgood

theorem pushes_tail {rs : List RedisReply} (hnone : pushes rs = []) : pushes rs.tail = [] := by
  cases rs with
  | nil => rfl
  | cons r rs => exact (List.append_eq_nil_iff.mp ((pushes_append [r] rs).symm.trans hnone)).2

/-- What holds of a run whose steps meet their conditions: no message is in the buffer of
    hiredis behind a reply, and none at all outside of the calls. -/
structure Complete (D : Decoder UInt8 RedisReply) (s : Subscriber) : Prop where
  tracked : Tracked D s
  good : Good s
  behind : pushes (D.split s.reader).1.tail = []
  outside : s.calling = false → pushes (D.split s.reader).1 = []

theorem Complete.step (hs : Complete D s) (hstep : s.step D e = some s')
    (hmeets : Meets D [] s e) : Complete D s' := by
  have hsafe : e = .returned → ReplySafe D s := fun he => by
    subst he
    exact hmeets
  have htracked := hs.tracked.step hstep
  have hgood := (hs.tracked.good_step_iff hstep).mpr ⟨hs.good, hsafe⟩
  cases step_effect hstep with
  | arrive bytes => exact ⟨htracked, hgood, hs.behind, hs.outside⟩
  | read n hnext hcalling =>
    refine ⟨htracked, hgood, hmeets, fun hidle => ?_⟩
    rw [show s.calling = false from hidle] at hcalling
    cases hcalling
  | returned r hr =>
    -- the reply was the first one in the buffer
    have hbehind := hs.behind
    rw [split_item hr.next, List.tail_cons] at hbehind
    exact ⟨htracked, hgood, pushes_tail hbehind, fun _ => hbehind⟩
  | keeps hk hcalling hnone =>
    refine ⟨htracked, hgood, hk.reader ▸ hs.behind, fun hidle => ?_⟩
    rw [hk.reader]
    cases hbefore : s.calling with
    | false => exact hs.outside hbefore
    | true =>
      cases hcalling hbefore with
      | inl hstill => rw [hidle] at hstill; cases hstill
      | inr hreturned =>
        -- the connection has failed, and hiredis has no reply any more
        rw [split_stop (hnone hreturned)]
        rfl

variable {h : List (Subscriber × SubEvent)}

theorem tracked_of_run (hrun : Run (subscriberSystem D) h s) : Tracked D s := by
  refine hrun.rec_on_run (P := fun _ s => Tracked D s) (fun s hinit => ?_)
    fun _ _ _ _ _ hs hstep => hs.step hstep
  rw [hinit]
  exact Tracked.start

/-- If all steps of a run meet their conditions, no message is missing whenever the loop is
    blocked. In a run in which none is missing, up to a state in which the loop is blocked, all
    replies that were returned have been safe. -/
theorem handedOn_of_run (hrun : Run (subscriberSystem D) h s) :
    (StepsMeet (Meets D) h → Throughout (fun _ s => HandsOn D s) h s) ∧
      (s.Blocked → Throughout (fun _ s => HandsOn D s) h s →
        StepsMeet (fun _ s e => e = .returned → ReplySafe D s) h) := by
  constructor
  · intro hmeets
    refine hrun.throughout_of_stepsMeet (I := fun _ s => Complete D s) hmeets (fun s hinit => ?_)
      (fun _ s hs hblocked => ?_) fun _ s e s' _ hs hstep hmeets => hs.step hstep hmeets
    · rw [hinit]
      have hempty : pushes (D.split []).1 = [] := by rw [split_nil]; rfl
      exact ⟨Tracked.start, rfl, pushes_tail hempty, fun _ => hempty⟩
    · have hidle : s.calling = false := by simp [calling, hblocked.1]
      exact (hs.tracked.handedOn_iff hblocked.2).mpr ⟨hs.good, hs.outside hidle⟩
  · intro hblocked hall
    have hend : HandsOn D s := by
      cases h with
      | nil => exact hall
      | cons _ _ => exact hall.1
    have hgood := (((tracked_of_run hrun).handedOn_iff hblocked.2).mp (hend hblocked)).1
    -- back from the end: what the callback misses once, it misses from then on
    refine hrun.stepsMeet_of_end (G := Good) hgood hall fun _ s e s' hrun hstep hgood _ => ?_
    exact ((tracked_of_run hrun).good_step_iff hstep).mp hgood

/-! ## Concrete runs -/

/-- A message on channel 5 with a payload of one byte, as Redis sends it. -/
def encodedMessage (payload : UInt8) : Bytes :=
  [0x2a, 0x33, 0x0d, 0x0a, 0x24, 0x37, 0x0d, 0x0a] ++ messageType ++
    [0x0d, 0x0a, 0x24, 0x31, 0x0d, 0x0a, 0x35, 0x0d, 0x0a,
      0x24, 0x31, 0x0d, 0x0a, payload, 0x0d, 0x0a]

/-- The reply to the subscription of channel 5. -/
def encodedSubscribed : Bytes :=
  [0x2a, 0x33, 0x0d, 0x0a, 0x24, 0x39, 0x0d, 0x0a,
    0x73, 0x75, 0x62, 0x73, 0x63, 0x72, 0x69, 0x62, 0x65, 0x0d, 0x0a,
    0x24, 0x31, 0x0d, 0x0a, 0x35, 0x0d, 0x0a, 0x3a, 0x31, 0x0d, 0x0a]

/-- The history and the state of the loop after the events `es`. -/
def schedule (es : List SubEvent) : Option (List (Subscriber × SubEvent) × Subscriber) :=
  (subscriberSystem Resp.decoder).exec [] {} es

theorem schedule_run {es : List SubEvent} (hsome : (schedule es).isSome) :
    Run (subscriberSystem Resp.decoder) ((schedule es).get hsome).1 ((schedule es).get hsome).2 :=
  Run.of_exec (S := subscriberSystem Resp.decoder) rfl hsome

/-- A subscription, and a message after its reply. -/
def subscribeAndReceive : List SubEvent :=
  [.push ⟨.subscribe, 5⟩, .lock, .redisCommand, .arrive encodedSubscribed, .read 30, .returned,
    .callPoll, .arrive (encodedMessage 0x61), .readable, .read 31, .returned, .lock, .callPoll]

theorem subscribeAndReceive_runs : (schedule subscribeAndReceive).isSome := by decide +kernel

theorem handedOn_subscribeAndReceive :
    Throughout (fun _ s => HandsOn Resp.decoder s)
      ((schedule subscribeAndReceive).get subscribeAndReceive_runs).1
      ((schedule subscribeAndReceive).get subscribeAndReceive_runs).2 :=
  (handedOn_of_run (schedule_run subscribeAndReceive_runs)).1 (by decide +kernel)

/-- A subscription, and two messages that arrive together and are read at once. -/
def twoAtOnce : List SubEvent :=
  [.push ⟨.subscribe, 5⟩, .lock, .redisCommand, .arrive encodedSubscribed, .read 30, .returned,
    .callPoll, .arrive (encodedMessage 0x61 ++ encodedMessage 0x62), .readable, .read 62,
    .returned, .lock, .callPoll]

theorem twoAtOnce_runs : (schedule twoAtOnce).isSome := by decide +kernel

/-- The loop waits for more while the second message is in the buffer of hiredis. -/
theorem not_handedOn :
    ¬ ∀ (D : Decoder UInt8 RedisReply) (h : List (Subscriber × SubEvent)) (s : Subscriber),
      Run (subscriberSystem D) h s → HandsOn D s := by
  intro hall
  have hblocked : ((schedule twoAtOnce).get twoAtOnce_runs).2.Blocked :=
    ⟨by decide +kernel, by decide +kernel⟩
  have hhanded := hall Resp.decoder _ _ (schedule_run twoAtOnce_runs) hblocked
  exact absurd hhanded (by decide +kernel)

end Subscriber

end Chat
