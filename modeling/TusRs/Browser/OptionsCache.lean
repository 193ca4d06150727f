import Mathlib.Logic.Function.Basic
import Mathlib.Logic.ExistsUnique
import TusRs.Browser.Queue

/-!
# The cache of server capabilities

`dioxus-tus/src/options_cache.rs`: callers that arrive while a fetch for their endpoint is
underway wait for its result. A caller runs from one await to the next without interruption; at
an await it may go on or be dropped, and a dropped fetch is finished by its guard. The lock is
held within one such move only, so it does not appear.

Results:

* `step_inv`, `reachable_inv`: what the map of fetches underway says of the callers.
* `options_coalesced`: over every interleaving there is one leader for each entry of that map, every
  waiter hears from it, and only a successful fetch is cached.
-/

namespace TusRs

namespace Browser

namespace OptionsCache

/-- `TTL_MS`. -/
def ttlMs : Int := 60000

/-- `Entry`. -/
structure Entry (Info : Type) where
  info : Info
  insertedAtMs : Int

/-- A caller's channel is named by the caller. -/
structure CacheState (Info : Type) where
  cached : String → Option (Entry Info)
  inFlight : String → Option (List Nat)

inductive Lookup (Info : Type) where
  | hit (info : Info)
  | wait
  | fetch

variable {Info : Type}

/-- The age is within the time to live; a clock that stepped back makes an entry stale. -/
def Entry.fresh (entry : Entry Info) (now : Int) : Bool :=
  decide (0 ≤ now - entry.insertedAtMs) && decide (now - entry.insertedAtMs < ttlMs)

/-- `lookup_or_register`, by caller `c`. -/
def lookupOrRegister (s : CacheState Info) (endpoint : String) (now : Int) (c : Nat) :
    CacheState Info × Lookup Info :=
  match (s.cached endpoint).filter fun entry => entry.fresh now with
  | some entry => (s, .hit entry.info)
  | none =>
    match s.inFlight endpoint with
    | some waiters =>
      ({ s with inFlight := Function.update s.inFlight endpoint (some (waiters ++ [c])) }, .wait)
    | none => ({ s with inFlight := Function.update s.inFlight endpoint (some []) }, .fetch)

/-- `finalize_fetch`, with the waiters that it notifies. -/
def finalizeFetch (s : CacheState Info) (endpoint : String) (result : Except TusError Info)
    (insertedAtMs : Int) : CacheState Info × List Nat :=
  ({ cached := match result with
      | .ok info => Function.update s.cached endpoint (some ⟨info, insertedAtMs⟩)
      | .error _ => s.cached
     inFlight := Function.update s.inFlight endpoint none },
   (s.inFlight endpoint).getD [])

/-- `invalidate`. -/
def invalidate (s : CacheState Info) (endpoint : String) : CacheState Info :=
  { s with cached := Function.update s.cached endpoint none }

/-- `peek_fresh`. -/
def peekFresh (s : CacheState Info) (endpoint : String) (now : Int) : Option Info :=
  ((s.cached endpoint).filter fun entry => entry.fresh now).map Entry.info

/-! ## Callers -/

/-- Where a call of `get_or_fetch` stands: it awaits its own request, with the guard armed, or
the receiver, or it is over. -/
inductive Caller (Info : Type) where
  | fetching (endpoint : String) (now : Int)
  | waiting (endpoint : String)
  | returned (result : Except TusError Info)
  | dropped

/-- The cache, the callers so far and what was sent into their channels. -/
structure World (Info : Type) where
  cache : CacheState Info
  callers : Nat → Option (Caller Info)
  channels : Nat → Option (Except TusError Info)

namespace World

def init : World Info := ⟨⟨fun _ => none, fun _ => none⟩, fun _ => none, fun _ => none⟩

def setCaller (w : World Info) (c : Nat) (caller : Caller Info) : World Info :=
  { w with callers := Function.update w.callers c (some caller) }

/-- The fetch of an endpoint ends: its result is sent to every waiter. -/
def finalize (w : World Info) (endpoint : String) (result : Except TusError Info)
    (insertedAtMs : Int) : World Info :=
  let (cache, waiters) := finalizeFetch w.cache endpoint result insertedAtMs
  { w with
    cache := cache
    channels := fun c => if c ∈ waiters then some result else w.channels c }

end World

/-- The error of the guard. -/
def fetchDropped : TusError := .transport "options cache: in-flight fetch was dropped"

/-- A call begins, a request is answered, a waiter hears, a future is dropped, an endpoint is
invalidated. -/
inductive Action (Info : Type) where
  | call (c : Nat) (endpoint : String) (now : Int)
  | answer (c : Nat) (result : Except TusError Info)
  | receive (c : Nat)
  | drop (c : Nat)
  | invalidate (endpoint : String)

/-- One move, up to the next await. -/
def step (w : World Info) : Action Info → Option (World Info)
  | .call c endpoint now =>
    match w.callers c with
    | some _ => none
    | none =>
      let (cache, lookup) := lookupOrRegister w.cache endpoint now c
      let w := { w with cache := cache }
      match lookup with
      | .hit info => some (w.setCaller c (.returned (.ok info)))
      | .wait => some (w.setCaller c (.waiting endpoint))
      | .fetch => some (w.setCaller c (.fetching endpoint now))
  | .answer c result =>
    match w.callers c with
    | some (.fetching endpoint now) =>
      some ((w.finalize endpoint result now).setCaller c (.returned result))
    | _ => none
  | .receive c =>
    match w.callers c, w.channels c with
    | some (.waiting _), some result => some (w.setCaller c (.returned result))
    | _, _ => none
  | .drop c =>
    match w.callers c with
    | some (.fetching endpoint _) =>
      some ((w.finalize endpoint (.error fetchDropped) 0).setCaller c .dropped)
    | some (.waiting _) => some (w.setCaller c .dropped)
    | _ => none
  | .invalidate endpoint => some { w with cache := OptionsCache.invalidate w.cache endpoint }

/-- The worlds of all runs. -/
inductive Reachable : World Info → Prop
  | init : Reachable .init
  | step {w w' : World Info} {a : Action Info} : Reachable w → step w a = some w' → Reachable w'

/-! ## What a move does -/

variable {w w' : World Info} {a : Action Info} {c : Nat} {endpoint : String}

@[simp] theorem setCaller_callers (w : World Info) (c d : Nat) (caller : Caller Info) :
    (w.setCaller c caller).callers d = if d = c then some caller else w.callers d := by
  simp [World.setCaller, Function.update_apply]

@[simp] theorem setCaller_cache (w : World Info) (c : Nat) (caller : Caller Info) :
    (w.setCaller c caller).cache = w.cache := rfl

@[simp] theorem setCaller_channels (w : World Info) (c : Nat) (caller : Caller Info) :
    (w.setCaller c caller).channels = w.channels := rfl

@[simp] theorem finalize_callers (w : World Info) (endpoint : String)
    (result : Except TusError Info) (t : Int) :
    (w.finalize endpoint result t).callers = w.callers := rfl

@[simp] theorem finalize_inFlight (w : World Info) (endpoint e : String)
    (result : Except TusError Info) (t : Int) :
    (w.finalize endpoint result t).cache.inFlight e =
      if e = endpoint then none else w.cache.inFlight e := by
  simp [World.finalize, finalizeFetch, Function.update_apply]

@[simp] theorem finalize_channels (w : World Info) (endpoint : String)
    (result : Except TusError Info) (t : Int) (d : Nat) :
    (w.finalize endpoint result t).channels d =
      if d ∈ (w.cache.inFlight endpoint).getD [] then some result else w.channels d := rfl

/-- Caller `c` registers for the endpoint. -/
def World.register (w : World Info) (endpoint : String) (waiters : List Nat) : World Info :=
  { w with cache := { w.cache with
      inFlight := Function.update w.cache.inFlight endpoint (some waiters) } }

@[simp] theorem register_inFlight (w : World Info) (endpoint e : String) (waiters : List Nat) :
    (w.register endpoint waiters).cache.inFlight e =
      if e = endpoint then some waiters else w.cache.inFlight e := by
  simp [World.register, Function.update_apply]

@[simp] theorem register_callers (w : World Info) (endpoint : String) (waiters : List Nat) :
    (w.register endpoint waiters).callers = w.callers := rfl

@[simp] theorem register_channels (w : World Info) (endpoint : String) (waiters : List Nat) :
    (w.register endpoint waiters).channels = w.channels := rfl

/-- Everything that a move can be. -/
inductive Moved (w : World Info) : Action Info → World Info → Prop
  | hit {c : Nat} {endpoint : String} {now : Int} {info : Info} : w.callers c = none →
      Moved w (.call c endpoint now) (w.setCaller c (.returned (.ok info)))
  | wait {c : Nat} {endpoint : String} {now : Int} {waiters : List Nat} : w.callers c = none →
      w.cache.inFlight endpoint = some waiters → Moved w (.call c endpoint now)
        ((w.register endpoint (waiters ++ [c])).setCaller c (.waiting endpoint))
  | fetch {c : Nat} {endpoint : String} {now : Int} : w.callers c = none →
      w.cache.inFlight endpoint = none → Moved w (.call c endpoint now)
        ((w.register endpoint []).setCaller c (.fetching endpoint now))
  | answer {c : Nat} {endpoint : String} {now : Int} {result : Except TusError Info} :
      w.callers c = some (.fetching endpoint now) → Moved w (.answer c result)
        ((w.finalize endpoint result now).setCaller c (.returned result))
  | receive {c : Nat} {endpoint : String} {result : Except TusError Info} :
      w.callers c = some (.waiting endpoint) → w.channels c = some result →
      Moved w (.receive c) (w.setCaller c (.returned result))
  | dropFetch {c : Nat} {endpoint : String} {now : Int} :
      w.callers c = some (.fetching endpoint now) → Moved w (.drop c)
        ((w.finalize endpoint (.error fetchDropped) 0).setCaller c .dropped)
  | dropWait {c : Nat} {endpoint : String} : w.callers c = some (.waiting endpoint) →
      Moved w (.drop c) (w.setCaller c .dropped)
  | invalidate {endpoint : String} : Moved w (.invalidate endpoint)
      { w with cache := OptionsCache.invalidate w.cache endpoint }

theorem lookupOrRegister_cases (s : CacheState Info) (endpoint : String) (now : Int) (c : Nat) :
    (∃ info, lookupOrRegister s endpoint now c = (s, .hit info)) ∨
    (∃ waiters, s.inFlight endpoint = some waiters ∧ lookupOrRegister s endpoint now c =
      ({ s with inFlight := Function.update s.inFlight endpoint (some (waiters ++ [c])) }, .wait)) ∨
    (s.inFlight endpoint = none ∧ lookupOrRegister s endpoint now c =
      ({ s with inFlight := Function.update s.inFlight endpoint (some []) }, .fetch)) := by
  unfold lookupOrRegister
  split
  · exact .inl ⟨_, rfl⟩
  · split
    · next waiters hwaiters => exact .inr (.inl ⟨waiters, hwaiters, rfl⟩)
    · next hnone => exact .inr (.inr ⟨hnone, rfl⟩)

theorem step_moved (h : step w a = some w') : Moved w a w' := by
  cases a with
  | call c endpoint now =>
    simp only [step] at h
    split at h
    · cases h
    · next hnew =>
      obtain ⟨info, hlookup⟩ | ⟨waiters, hwaiters, hlookup⟩ | ⟨hnone, hlookup⟩ :=
        lookupOrRegister_cases w.cache endpoint now c
      · rw [hlookup] at h
        cases h
        exact .hit hnew
      · rw [hlookup] at h
        cases h
        exact .wait hnew hwaiters
      · rw [hlookup] at h
        cases h
        exact .fetch hnew hnone
  | answer c result =>
    simp only [step] at h
    split at h
    · next hfetching =>
      cases h
      exact .answer hfetching
    · cases h
  | receive c =>
    simp only [step] at h
    split at h
    · next hwaiting hsent =>
      cases h
      exact .receive hwaiting hsent
    · cases h
  | drop c =>
    simp only [step] at h
    split at h
    · next hfetching =>
      cases h
      exact .dropFetch hfetching
    · next hwaiting =>
      cases h
      exact .dropWait hwaiting
    · cases h
  | invalidate endpoint =>
    cases h
    exact .invalidate

/-! ## The invariant -/

/-- Caller `c` is live and fetches the endpoint. -/
def World.Fetches (w : World Info) (c : Nat) (endpoint : String) : Prop :=
  ∃ now, w.callers c = some (.fetching endpoint now)

/-- What the map of fetches underway says of the callers. -/
structure Inv (w : World Info) : Prop where
  fetched : ∀ e, w.cache.inFlight e ≠ none ↔ ∃ c, w.Fetches c e
  unique : ∀ e c d, w.Fetches c e → w.Fetches d e → c = d
  registered : ∀ e waiters c, w.cache.inFlight e = some waiters → c ∈ waiters →
    w.callers c = some (.waiting e) ∧ w.channels c = none ∨ w.callers c = some .dropped
  awaits : ∀ c e, w.callers c = some (.waiting e) → w.channels c = none →
    ∃ waiters, w.cache.inFlight e = some waiters ∧ c ∈ waiters
  fresh : ∀ c, w.callers c = none → w.channels c = none

theorem init_inv : Inv (.init : World Info) := by
  constructor <;> simp [World.init, World.Fetches]

/-- A caller that is over. -/
def Caller.Over (x : Caller Info) : Prop := (∃ r, x = .returned r) ∨ x = .dropped

theorem Caller.Over.ne_fetching {x : Caller Info} (h : x.Over) (e : String) (now : Int) :
    x ≠ .fetching e now := by
  obtain ⟨r, rfl⟩ | rfl := h <;> simp

theorem Caller.Over.ne_waiting {x : Caller Info} (h : x.Over) (e : String) : x ≠ .waiting e := by
  obtain ⟨r, rfl⟩ | rfl := h <;> simp

theorem fetches_setCaller (w : World Info) (c d : Nat) (x : Caller Info) (e : String) :
    (w.setCaller c x).Fetches d e ↔
      d = c ∧ (∃ now, x = .fetching e now) ∨ d ≠ c ∧ w.Fetches d e := by
  unfold World.Fetches
  by_cases h : d = c <;> simp [h]

/-- A caller that is not fetching is over. -/
theorem Inv.over (h : Inv w) {x : Caller Info} (hx : x.Over)
    (hc : ∀ e now, w.callers c ≠ some (.fetching e now))
    (hregistered : ∀ e waiters, w.cache.inFlight e = some waiters → c ∈ waiters → x = .dropped) :
    Inv (w.setCaller c x) := by
  have hfetches : ∀ d e, (w.setCaller c x).Fetches d e ↔ w.Fetches d e := by
    intro d e
    rw [fetches_setCaller]
    constructor
    · intro hd
      obtain ⟨-, now, hnow⟩ | ⟨-, hd⟩ := hd
      · exact absurd hnow (hx.ne_fetching e now)
      · exact hd
    · intro hd
      refine .inr ⟨fun heq => ?_, hd⟩
      obtain ⟨now, hnow⟩ := hd
      exact hc e now (heq ▸ hnow)
  constructor
  · intro e
    simp only [hfetches]
    exact h.fetched e
  · intro e d d' hd hd'
    exact h.unique e d d' ((hfetches d e).1 hd) ((hfetches d' e).1 hd')
  · intro e waiters d hwaiters hd
    rw [setCaller_callers]
    split
    · next hdc =>
      subst hdc
      exact .inr (congrArg some (hregistered e waiters hwaiters hd))
    · exact h.registered e waiters d hwaiters hd
  · intro d e hd hchannel
    by_cases hdc : d = c
    · rw [setCaller_callers, if_pos hdc] at hd
      exact absurd (Option.some.inj hd) (hx.ne_waiting e)
    · rw [setCaller_callers, if_neg hdc] at hd
      exact h.awaits d e hd hchannel
  · intro d hd
    by_cases hdc : d = c
    · simp [hdc] at hd
    · rw [setCaller_callers, if_neg hdc] at hd
      exact h.fresh d hd

/-- A caller that was not there is not registered. -/
theorem Inv.not_registered (h : Inv w) (hc : w.callers c = none) {e : String} {waiters : List Nat}
    (hwaiters : w.cache.inFlight e = some waiters) : c ∉ waiters := by
  intro hmem
  have hstate := h.registered e waiters c hwaiters hmem
  simp [hc] at hstate

/-- A caller joins the waiters. -/
theorem Inv.wait (h : Inv w) {waiters : List Nat} (hc : w.callers c = none)
    (hwaiters : w.cache.inFlight endpoint = some waiters) :
    Inv ((w.register endpoint (waiters ++ [c])).setCaller c (.waiting endpoint)) := by
  have hfetches : ∀ d e, ((w.register endpoint (waiters ++ [c])).setCaller c
      (.waiting endpoint)).Fetches d e ↔ w.Fetches d e := by
    intro d e
    rw [fetches_setCaller]
    by_cases hdc : d = c
    · subst hdc
      simp [World.Fetches, hc]
    · simp [hdc, World.Fetches]
  constructor
  · intro e
    rw [setCaller_cache, register_inFlight]
    simp only [hfetches]
    rw [← h.fetched e]
    split
    · next he => simp [he, hwaiters]
    · rfl
  · intro e d d' hd hd'
    exact h.unique e d d' ((hfetches d e).1 hd) ((hfetches d' e).1 hd')
  · intro e ws d hws hd
    rw [setCaller_cache, register_inFlight] at hws
    rw [setCaller_callers, setCaller_channels, register_channels, register_callers]
    split at hws
    · next he =>
      cases hws
      by_cases hdc : d = c
      · simp [hdc, he, h.fresh c hc]
      · have hold : d ∈ waiters := by simpa [hdc] using hd
        have hstate := h.registered e waiters d (he ▸ hwaiters) hold
        simpa [hdc] using hstate
    · have hdc : d ≠ c := fun heq => h.not_registered hc hws (heq ▸ hd)
      rw [if_neg hdc]
      exact h.registered e ws d hws hd
  · intro d e hd hchannel
    rw [setCaller_callers] at hd
    rw [setCaller_cache, register_inFlight]
    split at hd
    · next hdc =>
      cases hd
      exact ⟨_, if_pos rfl, by simp [hdc]⟩
    · obtain ⟨ws, hws, hmem⟩ := h.awaits d e hd hchannel
      split
      · next he =>
        obtain rfl : ws = waiters := Option.some.inj (hws.symm.trans (he ▸ hwaiters))
        exact ⟨_, rfl, List.mem_append_left _ hmem⟩
      · exact ⟨ws, hws, hmem⟩
  · intro d hd
    by_cases hdc : d = c
    · simp [hdc] at hd
    · rw [setCaller_callers, if_neg hdc] at hd
      exact h.fresh d hd

/-- A caller becomes the leader. -/
theorem Inv.fetch (h : Inv w) {now : Int} (hc : w.callers c = none)
    (hnone : w.cache.inFlight endpoint = none) :
    Inv ((w.register endpoint []).setCaller c (.fetching endpoint now)) := by
  have hidle : ∀ d, ¬w.Fetches d endpoint := fun d hd =>
    (h.fetched endpoint).2 ⟨d, hd⟩ hnone
  have hfetches : ∀ d e, ((w.register endpoint []).setCaller c (.fetching endpoint now)).Fetches
      d e ↔ d = c ∧ e = endpoint ∨ w.Fetches d e := by
    intro d e
    rw [fetches_setCaller]
    by_cases hdc : d = c
    · subst hdc
      simp [World.Fetches, hc, eq_comm]
    · simp [hdc, World.Fetches]
  constructor
  · intro e
    rw [setCaller_cache, register_inFlight]
    simp only [hfetches]
    split
    · next he => simp [he]
    · next he => simpa [he] using h.fetched e
  · intro e d d' hd hd'
    obtain ⟨hdc, he⟩ | hold := (hfetches d e).1 hd
    · obtain ⟨hdc', -⟩ | hold' := (hfetches d' e).1 hd'
      · exact hdc.trans hdc'.symm
      · exact absurd hold' (he ▸ hidle d')
    · obtain ⟨-, he⟩ | hold' := (hfetches d' e).1 hd'
      · exact absurd hold (he ▸ hidle d)
      · exact h.unique e d d' hold hold'
  · intro e ws d hws hd
    rw [setCaller_cache, register_inFlight] at hws
    rw [setCaller_callers, setCaller_channels, register_channels, register_callers]
    split at hws
    · cases hws
      cases hd
    · have hdc : d ≠ c := fun heq => h.not_registered hc hws (heq ▸ hd)
      rw [if_neg hdc]
      exact h.registered e ws d hws hd
  · intro d e hd hchannel
    rw [setCaller_callers] at hd
    rw [setCaller_cache, register_inFlight]
    split at hd
    · cases hd
    · obtain ⟨ws, hws, hmem⟩ := h.awaits d e hd hchannel
      rw [if_neg fun he => by rw [he, hnone] at hws; cases hws]
      exact ⟨ws, hws, hmem⟩
  · intro d hd
    by_cases hdc : d = c
    · simp [hdc] at hd
    · rw [setCaller_callers, if_neg hdc] at hd
      exact h.fresh d hd

/-- The leader's fetch ends, and with it the leader. -/
theorem Inv.finalize (h : Inv w) {now t : Int} {x : Caller Info} (hx : x.Over)
    (hc : w.callers c = some (.fetching endpoint now)) (result : Except TusError Info) :
    Inv ((w.finalize endpoint result t).setCaller c x) := by
  have hfetches : ∀ d e, ((w.finalize endpoint result t).setCaller c x).Fetches d e ↔
      e ≠ endpoint ∧ w.Fetches d e := by
    intro d e
    rw [fetches_setCaller]
    constructor
    · intro hd
      obtain ⟨-, now', hnow⟩ | ⟨hdc, hd⟩ := hd
      · exact absurd hnow (hx.ne_fetching e now')
      · exact ⟨fun he => hdc (h.unique endpoint d c (he ▸ hd) ⟨now, hc⟩), hd⟩
    · intro ⟨he, hd⟩
      refine .inr ⟨fun hdc => he ?_, hd⟩
      obtain ⟨now', hnow⟩ := hd
      rw [hdc, hc] at hnow
      cases hnow
      rfl
  constructor
  · intro e
    rw [setCaller_cache, finalize_inFlight]
    simp only [hfetches]
    split
    · next he => simp [he]
    · next he => simpa [he] using h.fetched e
  · intro e d d' hd hd'
    exact h.unique e d d' ((hfetches d e).1 hd).2 ((hfetches d' e).1 hd').2
  · intro e ws d hws hd
    rw [setCaller_cache, finalize_inFlight] at hws
    split at hws
    · cases hws
    · next he =>
      have hdc : d ≠ c := by
        intro hdc
        have hstate := h.registered e ws d hws hd
        simp [hdc, hc] at hstate
      rw [setCaller_callers, setCaller_channels, finalize_callers, finalize_channels, if_neg hdc]
      obtain ⟨hwaiting, hchannel⟩ | hdropped := h.registered e ws d hws hd
      · -- Who waits for another endpoint is not among the notified.
        rw [if_neg fun hnotified => ?_]
        · exact .inl ⟨hwaiting, hchannel⟩
        · cases hin : w.cache.inFlight endpoint with
          | none => simp [hin] at hnotified
          | some waiters =>
            have hstate := h.registered endpoint waiters d hin (by simpa [hin] using hnotified)
            simp [hwaiting, he] at hstate
      · exact .inr hdropped
  · intro d e hd hchannel
    rw [setCaller_callers, finalize_callers] at hd
    rw [setCaller_channels, finalize_channels] at hchannel
    rw [setCaller_cache, finalize_inFlight]
    split at hd
    · exact absurd (Option.some.inj hd) (hx.ne_waiting e)
    · split at hchannel
      · cases hchannel
      · next hnotified =>
        obtain ⟨ws, hws, hmem⟩ := h.awaits d e hd hchannel
        rw [if_neg fun he => hnotified (by rw [← he, hws]; exact hmem)]
        exact ⟨ws, hws, hmem⟩
  · intro d hd
    rw [setCaller_callers, finalize_callers] at hd
    rw [setCaller_channels, finalize_channels]
    split at hd
    · cases hd
    · rw [if_neg fun hnotified => ?_]
      · exact h.fresh d hd
      · cases hin : w.cache.inFlight endpoint with
        | none => simp [hin] at hnotified
        | some waiters =>
          exact h.not_registered hd hin (by simpa [hin] using hnotified)

/-- Every move keeps the invariant. -/
theorem step_inv (h : Inv w) (hstep : step w a = some w') : Inv w' := by
  cases step_moved hstep with
  | hit hc =>
    refine h.over (.inl ⟨_, rfl⟩) (fun e now => by simp [hc]) fun e waiters hwaiters hmem => ?_
    exact absurd hmem (h.not_registered hc hwaiters)
  | wait hc hwaiters => exact h.wait hc hwaiters
  | fetch hc hnone => exact h.fetch hc hnone
  | answer hc => exact h.finalize (.inl ⟨_, rfl⟩) hc _
  | receive hc hsent =>
    refine h.over (.inl ⟨_, rfl⟩) (fun e now => by simp [hc]) fun e waiters hwaiters hmem => ?_
    have hstate := h.registered e waiters _ hwaiters hmem
    simp [hc, hsent] at hstate
  | dropFetch hc => exact h.finalize (.inr rfl) hc _
  | dropWait hc => exact h.over (.inr rfl) (fun e now => by simp [hc]) fun _ _ _ _ => rfl
  | invalidate => exact ⟨h.fetched, h.unique, h.registered, h.awaits, h.fresh⟩

theorem reachable_inv (h : Reachable w) : Inv w := by
  induction h with
  | init => exact init_inv
  | step _ hstep ih => exact step_inv ih hstep

/-! ## The law of the cache -/

/-- The move by which a leader's fetch of an endpoint ends, and what it ends with. -/
def Ends (w : World Info) (a : Action Info) (endpoint : String) (result : Except TusError Info) :
    Prop :=
  ∃ c, w.Fetches c endpoint ∧
    (a = .answer c result ∨ a = .drop c ∧ result = .error fetchDropped)

/-- One leader for each entry of the map, and every waiter has heard or will: it has a message,
or a live leader will send it one. -/
structure Coalesced (w : World Info) : Prop where
  single : ∀ e c d, w.Fetches c e → w.Fetches d e → c = d
  underway : ∀ e, w.cache.inFlight e ≠ none ↔ ∃! c, w.Fetches c e
  awaits : ∀ c e, w.callers c = some (.waiting e) → w.channels c = none → ∃ d, w.Fetches d e

/-- What a move leaves: at the end of a fetch the entry is gone and every waiter of the endpoint
has a message, the fetch's result unless it had one already; and only the answer to a fetch is
cached, never an error. -/
structure Handed (w : World Info) (a : Action Info) (w' : World Info) : Prop where
  removed : ∀ e result, Ends w a e result → w'.cache.inFlight e = none
  woken : ∀ e result c, Ends w a e result → w.callers c = some (.waiting e) →
    w'.channels c = some ((w.channels c).getD result)
  failed : ∀ e error, Ends w a e (.error error) → w'.cache.cached = w.cache.cached
  cached : ∀ e entry, w'.cache.cached e = some entry → w.cache.cached e = some entry ∨
    Ends w a e (.ok entry.info)

theorem Inv.coalesced (h : Inv w) : Coalesced w where
  single := h.unique
  underway e := by
    rw [h.fetched e]
    refine ⟨fun ⟨c, hc⟩ => ⟨c, hc, fun d hd => h.unique e d c hd hc⟩, fun hc => hc.exists⟩
  awaits c e hc hchannel := by
    obtain ⟨waiters, hwaiters, -⟩ := h.awaits c e hc hchannel
    exact (h.fetched e).1 (by simp [hwaiters])

/-- The end of a fetch is one move. -/
theorem Ends.eq (hinv : Inv w) {result : Except TusError Info} (h : Ends w a endpoint result)
    (hmoved : Moved w a w') : ∃ c t x, w' = (w.finalize endpoint result t).setCaller c x ∧
      w.Fetches c endpoint := by
  obtain ⟨c, ⟨now, hc⟩, rfl | ⟨rfl, rfl⟩⟩ := h
  · cases hmoved with
    | answer hc' =>
      rw [hc] at hc'
      cases hc'
      exact ⟨c, _, _, rfl, now, hc⟩
  · cases hmoved with
    | dropFetch hc' =>
      rw [hc] at hc'
      cases hc'
      exact ⟨c, _, _, rfl, now, hc⟩
    | dropWait hc' =>
      rw [hc] at hc'
      cases hc'

theorem Inv.handed (h : Inv w) (hmoved : Moved w a w') : Handed w a w' where
  removed e result hends := by
    obtain ⟨c, t, x, rfl, -⟩ := hends.eq h hmoved
    simp
  woken e result c hends hc := by
    obtain ⟨d, t, x, rfl, hd⟩ := hends.eq h hmoved
    rw [setCaller_channels, finalize_channels]
    cases hchannel : w.channels c with
    | none =>
      obtain ⟨waiters, hwaiters, hmem⟩ := h.awaits c e hc hchannel
      simp [hwaiters, hmem]
    | some r =>
      rw [if_neg fun hnotified => ?_]
      · rfl
      · cases hin : w.cache.inFlight e with
        | none => simp [hin] at hnotified
        | some waiters =>
          have hstate := h.registered e waiters c hin (by simpa [hin] using hnotified)
          simp [hc, hchannel] at hstate
  failed e error hends := by
    obtain ⟨c, t, x, rfl, -⟩ := hends.eq h hmoved
    rfl
  cached e entry hentry := by
    have hanswer : ∀ {c endpoint now result}, w.callers c = some (.fetching endpoint now) →
        (w.finalize endpoint result now).cache.cached e = some entry →
        w.cache.cached e = some entry ∨ Ends w (.answer c result) e (.ok entry.info) := by
      intro c endpoint now result hc hcached
      cases result with
      | error error => exact .inl hcached
      | ok info =>
        have hupdate : Function.update w.cache.cached endpoint (some ⟨info, now⟩) e =
            some entry := hcached
        rw [Function.update_apply] at hupdate
        split at hupdate
        · next he =>
          cases hupdate
          exact .inr ⟨c, ⟨now, he ▸ hc⟩, .inl rfl⟩
        · exact .inl hupdate
    cases hmoved with
    | answer hc => exact hanswer hc hentry
    | invalidate =>
      have hupdate : Function.update w.cache.cached _ none e = some entry := hentry
      rw [Function.update_apply] at hupdate
      split at hupdate
      · cases hupdate
      · exact .inl hupdate
    | _ => exact .inl hentry

/-- In every interleaving of calls, answers, failures, drops and invalidations: at most one
request for an endpoint is in flight, an entry of the map stands exactly while one live leader
fetches for it, every waiter is woken when its leader ends in whatever way, and a failed or
dropped fetch leaves nothing cached. -/
theorem options_coalesced (h : Reachable w) :
    Coalesced w ∧ ∀ a w', step w a = some w' → Handed w a w' :=
  ⟨(reachable_inv h).coalesced, fun _ _ hstep => (reachable_inv h).handed (step_moved hstep)⟩

/-- A leader for the endpoint. -/
def led (endpoint : String) : World Nat :=
  (World.init.register endpoint []).setCaller 0 (.fetching endpoint 0)

/-- The leader and a caller that waits for it. -/
def joined (endpoint : String) : World Nat :=
  ((led endpoint).register endpoint [1]).setCaller 1 (.waiting endpoint)

theorem joined_reachable (endpoint : String) : Reachable (joined endpoint) := by
  have hled : step World.init (.call 0 endpoint 0) = some (led endpoint) := rfl
  have hin : (led endpoint).cache.inFlight endpoint = some [] := by simp [led]
  have hjoined : step (led endpoint) (.call 1 endpoint 1) = some (joined endpoint) := by
    have hlookup : lookupOrRegister (led endpoint).cache endpoint 1 1 =
        (((led endpoint).register endpoint [1]).cache, .wait) := by
      simp only [lookupOrRegister, hin]
      rfl
    have hnew : (led endpoint).callers 1 = none := rfl
    simp only [step, hnew, hlookup]
    rfl
  exact .step (.step .init hled) hjoined

theorem options_coalesced_sample : Coalesced (joined "/files") ∧
    (joined "/files").callers 1 = some (.waiting "/files") ∧
    ∀ a w', step (joined "/files") a = some w' → Handed (joined "/files") a w' :=
  ⟨(options_coalesced (joined_reachable "/files")).1, rfl,
    (options_coalesced (joined_reachable "/files")).2⟩

end OptionsCache

end Browser

end TusRs
