import LearnGit.Native.ChatServer

/-!
# From the stream to the handlers

`onMessage` parses whatever a callback finds in the buffer as one text. A client writes its
objects one after the other, and a callback that finds two of them, or a part of one, makes
the parser throw.

## Key results

- `callbacks_eq_ok`: what callbacks without an exception have parsed
- `callbacks_iff`: all handlers are submitted exactly if every callback finds one object
-/

namespace Chat

open JsonText

variable {toInt : Json → Option Int}

/-- An object that a client sends: it has a `msgtype` that is a number. -/
structure ClientMessage (toInt : Json → Option Int) where
  members : List (Bytes × Json)
  msgtype : Int
  hasMsgtype : readMsgtype toInt (.object members) = some msgtype

namespace ClientMessage

def json (x : ClientMessage toInt) : Json := .object x.members

/-- The task that handles the message. -/
def task (x : ClientMessage toInt) : Handler × Json := (getHandler x.msgtype, x.json)

theorem onMessage_sent {parse : Bytes → Option Json} {x : ClientMessage toInt}
    (hparse : parse (sendJson x.json) = some x.json) (tasks : List (Handler × Json)) :
    onMessage ⟨parse, toInt⟩ tasks (sendJson x.json) = .ok (tasks ++ [x.task]) := by
  have htype : readMsgtype toInt x.json = some x.msgtype := x.hasMsgtype
  unfold onMessage
  simp only [hparse, htype]
  rfl

end ClientMessage

/-- Callbacks without an exception have parsed one text each. -/
theorem callbacks_eq_ok {json : JsonLibrary} {bufs : List Bytes}
    {tasks tasks' : List (Handler × Json)}
    (hok : bufs.foldlM (onMessage json) tasks = .ok tasks') :
    ∃ new, tasks' = tasks ++ new ∧ bufs.map json.parse = new.map fun t => some t.2 := by
  induction bufs generalizing tasks with
  | nil =>
    obtain rfl := Except.ok.inj hok
    exact ⟨[], (List.append_nil _).symm, rfl⟩
  | cons buf bufs ih =>
    rw [List.foldlM_cons] at hok
    unfold onMessage at hok
    -- a buffer without a value or without a type ends the run with an exception
    cases hparse : json.parse buf with
    | none =>
      simp only [hparse] at hok
      exact absurd hok (by simp [bind, Except.bind])
    | some js =>
      simp only [hparse] at hok
      cases htype : readMsgtype json.toInt js with
      | none =>
        simp only [htype] at hok
        exact absurd hok (by simp [bind, Except.bind])
      | some msgtype =>
        simp only [htype] at hok
        obtain ⟨new, rfl, hnew⟩ := ih hok
        refine ⟨(getHandler msgtype, js) :: new, by rw [List.append_assoc]; rfl, ?_⟩
        rw [List.map_cons, List.map_cons, hparse, hnew]

/-- The texts that a client sends. -/
def sentTexts (xs : List (ClientMessage toInt)) : List Bytes := xs.map fun x => sendJson x.json

/-- Every object is handled once, in order, and no exception leaves a callback, whatever a
    parser that reads the texts makes of other bytes. -/
def HandlesEach (xs : List (ClientMessage toInt)) (bufs : List Bytes) : Prop :=
  ∀ parse : Bytes → Option Json, (∀ x ∈ xs, parse (sendJson x.json) = some x.json) →
    callbacks ⟨parse, toInt⟩ bufs = .ok (xs.map ClientMessage.task)

theorem HandlesEach.bufs_eq {xs : List (ClientMessage toInt)} {bufs : List Bytes}
    (hall : HandlesEach xs bufs) : bufs = sentTexts xs := by
  -- a parser that accepts the texts of `dump` and nothing else
  have hread := dump_injective.isPartialInv
  have hok := hall (Function.partialInv dump) fun x _ => (hread _ _).mpr rfl
  obtain ⟨new, hnew, hparsed⟩ := callbacks_eq_ok hok
  rw [List.nil_append] at hnew
  rw [← hnew, List.map_map] at hparsed
  clear hall hok hnew
  induction xs generalizing bufs with
  | nil => exact List.map_eq_nil_iff.mp hparsed
  | cons x xs ih =>
    obtain ⟨buf, bufs, rfl, hbuf, hbufs⟩ := List.map_eq_cons_iff.mp hparsed
    rw [ih hbufs, ← (hread _ _).mp hbuf]
    rfl

theorem handlesEach_sentTexts (xs : List (ClientMessage toInt)) :
    HandlesEach xs (sentTexts xs) := by
  intro parse hparse
  have hfrom (tasks : List (Handler × Json)) (ys : List (ClientMessage toInt))
      (hys : ∀ x ∈ ys, parse (sendJson x.json) = some x.json) :
      (sentTexts ys).foldlM (onMessage ⟨parse, toInt⟩) tasks =
        .ok (tasks ++ ys.map ClientMessage.task) := by
    induction ys generalizing tasks with
    | nil => rw [List.map_nil, List.append_nil]; rfl
    | cons y ys ih =>
      rw [sentTexts, List.map_cons, List.foldlM_cons,
        ClientMessage.onMessage_sent (hys y List.mem_cons_self)]
      refine (ih _ fun x hx => hys x (List.mem_cons_of_mem _ hx)).trans ?_
      rw [List.map_cons, List.append_assoc, List.singleton_append]
  exact hfrom [] xs hparse

/-- Whatever the callbacks find, each object is handled once, in order and without an
    exception exactly if the callbacks find the texts one by one. -/
theorem callbacks_iff (xs : List (ClientMessage toInt)) (bufs : List Bytes) :
    HandlesEach xs bufs ↔ bufs = sentTexts xs :=
  ⟨HandlesEach.bufs_eq, fun heq => heq ▸ handlesEach_sentTexts xs⟩

/-- The conversion to `int` of the number in the requests below. -/
def elevenToInt : Json → Option Int
  | .number n => if n.text = [0x31, 0x31] then some 11 else none
  | _ => none

/-- A request for the list of applications. -/
def getAddListRequest : ClientMessage elevenToInt where
  members := [(msgtypeKey, .number ⟨[0x31, 0x31], by decide, by decide⟩)]
  msgtype := 11
  hasMsgtype := by decide

/-- Two requests that arrive together. -/
theorem not_handlesEach_together :
    ¬ ∀ (toInt : Json → Option Int) (xs : List (ClientMessage toInt)) (bufs : List Bytes),
      bufs.flatten = (sentTexts xs).flatten → HandlesEach xs bufs := by
  intro hall
  have hbufs := (hall elevenToInt [getAddListRequest, getAddListRequest]
    [(sentTexts [getAddListRequest, getAddListRequest]).flatten] (by simp)).bufs_eq
  exact absurd (congrArg List.length hbufs) (by decide)

end Chat
