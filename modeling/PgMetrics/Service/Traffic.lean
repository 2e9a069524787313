import PgMetrics.Service.Basic

/-! # A service with many clients

A service and its clones share one lock, the caches and the server.  Clients ask for scrapes and for
signs of life at any time.  A scrape waits until the lock is handed to it, which happens in the order
of asking, and the time that it may take begins then; a sign of life waits for nobody.

What has been asked for goes on side by side.  A `Move` is one instant of one of them, and time passes
only when there is nothing that is due.
-/
namespace PgMetrics

/-- An activity under way: when it goes on, what is left of it and what it has left behind. -/
structure Thread (σ ω α : Type) where
  due : Nat
  rest : Activity σ ω α
  log : List (Nat × ω) := []

namespace Thread

variable {σ ω α : Type}

def value? (t : Thread σ ω α) (time : Nat) : Option α :=
  match t.rest with
  | .done value => if t.due ≤ time then some value else none
  | _ => none

/-- One instant, or the beginning of a wait, if it is due. -/
def step (t : Thread σ ω α) (time : Nat) (s : σ) : Thread σ ω α × σ :=
  if t.due ≤ time then
    match t.rest with
    | .done _ => (t, s)
    | .note event rest => ({ t with rest, log := t.log ++ [(time, event)] }, s)
    | .access change rest => ({ t with rest := rest time s }, change time s)
    | .wait span rest => ({ t with due := time + span, rest }, s)
  else (t, s)

end Thread

/-- What a scrape came to while it had the lock: from when until when, what it found and left, whether
it was not dropped, its events with their times, and what it returned. -/
structure Report (σ : Type) where
  since : Nat
  found : World σ
  ended : Nat
  left : World σ
  whole : Bool
  log : List (Nat × Event)
  observations : List Observation

inductive Turn (σ : Type) where
  | waiting
  /-- It has had the lock since then. -/
  | running (since : Nat) (found : World σ) (thread : Thread (World σ) Event (Option Unit))
  | returned (report : Report σ)

structure ScrapeCall (σ : Type) where
  asked : Nat
  only : List String
  turn : Turn σ := .waiting

structure PingCall (σ : Type) where
  asked : Nat
  thread : Thread (World σ) Event Verdict

/-- The calls are listed in the order of asking, and scrapes are numbered by their place there. -/
structure Traffic (σ : Type) where
  time : Nat
  world : World σ
  holder : Option Nat := none
  /-- Those that wait for the lock. -/
  queue : List Nat := []
  scrapes : List (ScrapeCall σ) := []
  pings : List (PingCall σ) := []

inductive Move (σ : Type) where
  | askScrape (only : List String)
  | askPing
  /-- The lock is handed on. -/
  | grant
  | scrape (number : Nat)
  | ping (number : Nat)
  | pass (span : Nat)
  | change (server : σ → σ)

namespace Report

variable {σ : Type}

def close (since : Nat) (found : World σ) (ended : Nat) (left : World σ) (value : Option Unit)
    (log : List (Nat × Event)) : Report σ where
  since
  found
  ended
  left
  whole := value.isSome
  log := log ++ (Event.held (log.map Prod.snd)).map fun number => (ended, .dropped number)
  observations := log.filterMap fun e => e.2.observation?

end Report

namespace Traffic

variable {σ κ : Type}

def start (time : Nat) (world : World σ) : Traffic σ := { time, world }

def report? (t : Traffic σ) (number : Nat) : Option (Report σ) :=
  match t.scrapes[number]? with
  | some ⟨_, _, .returned report⟩ => some report
  | _ => none

def rests (time : Nat) (c : ScrapeCall σ) : Bool :=
  match c.turn with
  | .running _ _ thread => time ≤ thread.due
  | _ => true

/-- Whether nobody has anything to do for that span, and the lock is not kept from those that wait
for it. -/
def idle (t : Traffic σ) (span : Nat) : Bool :=
  (t.holder.isSome || t.queue.isEmpty) && t.scrapes.all (rests (t.time + span)) &&
    t.pings.all fun c => (c.thread.value? t.time).isSome || t.time + span ≤ c.thread.due

/-- Hands a free lock to the first one that waits for it. -/
def grant (s : Service σ κ) (t : Traffic σ) : Traffic σ :=
  match t.holder, t.queue with
  | none, number :: queue =>
    match t.scrapes[number]? with
    | some c =>
      let thread : Thread (World σ) Event (Option Unit) :=
        { due := t.time, rest := s.attempt c.only }
      { t with
        holder := some number
        queue
        scrapes := t.scrapes.set number { c with turn := .running t.time t.world thread } }
    | none => t
  | _, _ => t

def scrape (t : Traffic σ) (number : Nat) : Traffic σ :=
  match t.scrapes[number]? with
  | some ⟨asked, only, .running since found thread⟩ =>
    match thread.value? t.time with
    | some value =>
      let report := Report.close since found t.time t.world value thread.log
      { t with
        holder := none
        scrapes := t.scrapes.set number ⟨asked, only, .returned report⟩ }
    | none =>
      let (thread, world) := thread.step t.time t.world
      { t with
        world
        scrapes := t.scrapes.set number ⟨asked, only, .running since found thread⟩ }
  | _ => t

def ping (t : Traffic σ) (number : Nat) : Traffic σ :=
  match t.pings[number]? with
  | some c =>
    let (thread, world) := c.thread.step t.time t.world
    { t with world, pings := t.pings.set number { c with thread } }
  | none => t

/-- A move that cannot be made now changes nothing. -/
def step (s : Service σ κ) (t : Traffic σ) : Move σ → Traffic σ
  | .askScrape only =>
    { t with
      scrapes := t.scrapes ++ [{ asked := t.time, only }]
      queue := t.queue ++ [t.scrapes.length] }
  | .askPing =>
    { t with pings := t.pings ++ [⟨t.time, { due := t.time, rest := s.ping }⟩] }
  | .grant => t.grant s
  | .scrape number => t.scrape number
  | .ping number => t.ping number
  | .pass span => if t.idle span then { t with time := t.time + span } else t
  | .change server => { t with world := { t.world with server := server t.world.server } }

def follow (s : Service σ κ) (t : Traffic σ) (moves : List (Move σ)) : Traffic σ :=
  moves.foldl (step s) t

end Traffic
end PgMetrics
