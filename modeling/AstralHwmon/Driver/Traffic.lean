import AstralHwmon.Driver.Freshness
import Mathlib.Data.List.Chain

/-!
# The cache as a ceiling on bus traffic

The transfers of a run of `timedSystem`, each with the times at which it began and
ended, and the distance the cache keeps between them.

A transfer whose frame is committed stamps the cache, and the next one begins only
when the test of the stamp fails, `ASTRAL_CACHE_TTL` ticks later at least. That holds
however long the run is: the wrapped comparison can take an old stamp for a new one,
but never a new one for an old one (`Clock.le_of_not_fresh`). A transfer that fails
clears `valid` and leaves no stamp that the next test could look at, so that the next
read of a channel transfers again, whenever it comes. `astralRead_apart` puts the two
together.
-/

open Transition WrapCounter

namespace Astral

/-- A transfer on the bus: when it began, when it ended, and how. -/
structure BusTransfer where
  begun : ℕ
  ended : ℕ
  result : SmbusResult

variable (clk : Clock)

/-- The transfer a call makes, if it makes one. -/
def TimedCall.traffic (s : Timed) (c : TimedCall) : Option BusTransfer :=
  (c.request.run clk.cacheTtl s.data (c.io clk s)).2.map fun r =>
    ⟨s.now + c.wait, s.now + c.wait + c.busy, r⟩

/-- The transfers a run makes, oldest first. -/
def traffic (l : List (Timed × TimedCall)) : List BusTransfer :=
  l.filterMap fun p => p.2.traffic clk p.1

/-- The second transfer begins `ASTRAL_CACHE_TTL` ticks after the end of the first, or
later. -/
def Apart (a b : BusTransfer) : Prop := clk.ticks a.ended + clk.ttl ≤ clk.ticks b.begun

/-- A request that asks for the frame: a refresh, or the read of a channel. -/
def Request.ReadsFrame : Request → Prop
  | .refresh => True
  | .read type _ channel _ => type ≠ .chip ∧ 0 ≤ channel ∧ channel < 6

/-- What the newest transfer of a run has left in the cache: its stamp if it was good,
and nothing if it was not. -/
structure Timed.Spaced (l : List (Timed × TimedCall)) (s : Timed) : Prop where
  chain : (traffic clk l).IsChain fun a b => a.result.Good → Apart clk a b
  newest : ∀ x ∈ (traffic clk l).getLast?, x.ended ≤ s.now ∧
    (x.result.Good → s.data.valid = true ∧ s.data.lastUpdated = clk.jiffies x.ended) ∧
    (¬ x.result.Good → s.data.valid = false)

variable {clk}

theorem traffic_append (l : List (Timed × TimedCall)) (s : Timed) (c : TimedCall) :
    traffic clk (l ++ [(s, c)]) = traffic clk l ++ (c.traffic clk s).toList := by
  rw [traffic, traffic, List.filterMap_append]
  cases h : c.traffic clk s <;> simp [h]

/-- **A miss on a valid cache is late.** However far the counter has run, the test
fails no sooner than `ASTRAL_CACHE_TTL` ticks after the stamp. -/
theorem Clock.le_of_not_fresh {data : AstralData} {c t : ℕ} (hvalid : data.valid = true)
    (hstamp : data.lastUpdated = clk.jiffies c) (hct : c ≤ t)
    (hmiss : data.fresh clk.cacheTtl (clk.jiffies t) = false) :
    clk.ticks c + clk.ttl ≤ clk.ticks t := by
  by_contra hsoon
  have hmono := clk.ticks_mono hct
  have hle := clk.ttl_le
  -- up to then the two readings are close, and the comparison is right about them
  have hbefore : before (reading clk.start (clk.ticks t))
      (reading clk.start (clk.ticks c + clk.ttl)) = true :=
    (before_iff (by decide) (by omega) (by omega)).mpr (by omega)
  rw [AstralData.fresh, hvalid, hstamp, Clock.jiffies, Clock.jiffies, Clock.cacheTtl, reading_add,
    hbefore] at hmiss
  exact absurd hmiss (by decide)

/-- A call makes no transfer and leaves the cache alone, or misses the cache and makes
one, whose outcome decides what the cache is stamped with. -/
theorem Timed.call_traffic (clk : Clock) (s : Timed) (c : TimedCall) :
    (c.traffic clk s = none ∧ s.call clk c = { s with now := s.now + c.wait }) ∨
    (c.traffic clk s = some ⟨s.now + c.wait, s.now + c.wait + c.busy, c.result⟩ ∧
      s.data.fresh clk.cacheTtl (clk.jiffies (s.now + c.wait)) = false ∧
      (s.call clk c).now = s.now + c.wait + c.busy ∧
      (c.result.Good → (s.call clk c).data.valid = true ∧
        (s.call clk c).data.lastUpdated = clk.jiffies (s.now + c.wait + c.busy)) ∧
      (¬ c.result.Good → (s.call clk c).data.valid = false)) := by
  unfold TimedCall.traffic Timed.call
  rcases Request.run_cases clk.cacheTtl s.data (c.io clk s) c.request with heq | heq
  · rw [heq]; exact Or.inl ⟨rfl, rfl⟩
  rw [heq]
  -- hit, failure, commit
  rcases astralRefreshLocked_cases clk.cacheTtl s.data (c.io clk s) with
    ⟨-, hr⟩ | ⟨hmiss, hbad, e, hr⟩ | ⟨hmiss, frame, hread, hpl, hr⟩ <;> rw [hr]
  · exact Or.inl ⟨rfl, rfl⟩
  · exact Or.inr ⟨rfl, hmiss, rfl, fun hgood => absurd hgood hbad, fun _ => rfl⟩
  · exact Or.inr ⟨rfl, hmiss, rfl, fun _ => ⟨rfl, rfl⟩,
      fun hbad => absurd ⟨frame, hread, hpl⟩ hbad⟩

/-- One call keeps the transfers spaced. -/
theorem Timed.Spaced.call {l : List (Timed × TimedCall)} {s : Timed} (h : s.Spaced clk l)
    (c : TimedCall) : (s.call clk c).Spaced clk (l ++ [(s, c)]) := by
  rcases s.call_traffic clk c with ⟨hnone, hcall⟩ | ⟨hsome, hmiss, hnow, hgood, hbad⟩
  · -- no transfer, and nothing but time has passed
    have hsame : traffic clk (l ++ [(s, c)]) = traffic clk l := by
      rw [traffic_append, hnone, Option.toList_none, List.append_nil]
    rw [hcall]
    refine ⟨hsame ▸ h.chain, fun x hx => ?_⟩
    obtain ⟨hended, hstamped, hcleared⟩ := h.newest x (hsame ▸ hx)
    exact ⟨Nat.le_add_right_of_le hended, hstamped, hcleared⟩
  · have hmore : traffic clk (l ++ [(s, c)])
        = traffic clk l ++ [⟨s.now + c.wait, s.now + c.wait + c.busy, c.result⟩] := by
      rw [traffic_append, hsome, Option.toList_some]
    constructor
    · rw [hmore]
      refine List.isChain_append.mpr ⟨h.chain, List.isChain_singleton _, fun a ha b hb hagood => ?_⟩
      obtain rfl := Option.some.inj hb
      -- the test has found the stamp of the transfer before it too old
      obtain ⟨hended, hstamped, -⟩ := h.newest a ha
      obtain ⟨hvalid, hstamp⟩ := hstamped hagood
      exact Clock.le_of_not_fresh hvalid hstamp (Nat.le_add_right_of_le hended) hmiss
    · intro x hx
      rw [hmore, List.getLast?_concat] at hx
      obtain rfl := Option.some.inj hx
      exact ⟨hnow.ge, hgood, hbad⟩

theorem timedSystem_spaced {s t : Timed} {l : List (Timed × TimedCall)}
    (hp : Run (timedSystem clk) s l t) : t.Spaced clk l := by
  refine Run.history (J := fun l t => t.Spaced clk l) ⟨List.isChain_nil, by simp [traffic]⟩
    (fun l t c u _ hJ hstep => ?_) hp
  rw [show u = t.call clk c from hstep]
  exact hJ.call c

/-- Without a valid cache, a call that asks for the frame makes a transfer. -/
theorem TimedCall.traffic_of_invalid {s : Timed} {c : TimedCall} (hinvalid : s.data.valid = false)
    (hreads : c.request.ReadsFrame) :
    c.traffic clk s = some ⟨s.now + c.wait, s.now + c.wait + c.busy, c.result⟩ := by
  have hmiss : s.data.fresh clk.cacheTtl (c.io clk s).checked = false := by
    rw [AstralData.fresh, hinvalid, Bool.false_and]
  -- without a hit the refresh transfers, whatever comes of it
  have htransfer : (astralRefreshLocked clk.cacheTtl s.data (c.io clk s)).transfer
      = some c.result := by
    rcases astralRefreshLocked_cases clk.cacheTtl s.data (c.io clk s) with
      ⟨hit, -⟩ | ⟨-, -, e, hr⟩ | ⟨-, frame, -, -, hr⟩
    · rw [hmiss] at hit
      exact absurd hit (by decide)
    · rw [hr]; rfl
    · rw [hr]; rfl
  have hrun : (c.request.run clk.cacheTtl s.data (c.io clk s)).2 = some c.result := by
    -- a read of a channel goes through the same refresh
    cases hrequest : c.request with
    | refresh => exact htransfer
    | read type attr channel val =>
      rw [hrequest] at hreads
      obtain ⟨hchip, hlo, hhi⟩ := hreads
      rw [Request.run, astralRead, if_neg hchip, dif_neg (by omega)]
      exact htransfer
  rw [TimedCall.traffic, hrun, Option.map_some]

/-- **How far apart transfers are.** In every run, whatever the calls, their times and
the outcomes of their transfers,

* if every transfer is answered with a good frame, any two consecutive ones are
  `ASTRAL_CACHE_TTL` ticks apart;
* more than that, a good transfer keeps the next one away, whatever the others were;
* after a transfer that failed, was short or implausible, the next call that asks for
  the frame transfers again, however soon it comes. -/
theorem astralRead_apart {s t : Timed} {l : List (Timed × TimedCall)}
    (hp : Run (timedSystem clk) s l t) :
    ((∀ p ∈ l, p.2.result.Good) → (traffic clk l).IsChain (Apart clk)) ∧
    ((traffic clk l).IsChain fun a b => a.result.Good → Apart clk a b) ∧
    ∀ x ∈ (traffic clk l).getLast?, ¬ x.result.Good →
      ∀ c : TimedCall, c.request.ReadsFrame →
        c.traffic clk t = some ⟨t.now + c.wait, t.now + c.wait + c.busy, c.result⟩ := by
  have hspaced := timedSystem_spaced hp
  refine ⟨fun hgood => ?_, hspaced.chain, fun x hx hbad c hreads => ?_⟩
  · -- every transfer has the outcome that its call came with
    have hresult : ∀ x ∈ traffic clk l, x.result.Good := by
      intro x hx
      obtain ⟨⟨s, c⟩, hmem, htraffic⟩ := List.mem_filterMap.mp hx
      rcases s.call_traffic clk c with ⟨hnone, -⟩ | ⟨hsome, -⟩
      · rw [hnone] at htraffic
        exact absurd htraffic (by simp)
      · obtain rfl := Option.some.inj (hsome.symm.trans htraffic)
        exact hgood _ hmem
    exact hspaced.chain.imp_of_mem_imp fun a b ha _ hapart => hapart (hresult a ha)
  · exact TimedCall.traffic_of_invalid ((hspaced.newest x hx).2.2 hbad) hreads

/-! ### Two runs -/

/-- The steps of a list of calls made one after the other. -/
def Timed.steps (clk : Clock) : Timed → List TimedCall → List (Timed × TimedCall)
  | _, [] => []
  | s, c :: cs => (s, c) :: (s.call clk c).steps clk cs

/-- Any calls can be made. -/
theorem Timed.steps_run (clk : Clock) (s : Timed) (cs : List TimedCall) :
    Run (timedSystem clk) s (s.steps clk cs) (cs.foldl (Timed.call clk) s) := by
  induction cs generalizing s with
  | nil => exact Run.refl s
  | cons c cs ih =>
    have hfirst : (timedSystem clk).step s c (s.call clk c) := rfl
    exact (Run.single hfirst).trans (ih (s.call clk c))

/-- The probe's refresh, and a read of a channel that comes when the cache is too old. -/
def goodCalls : List TimedCall :=
  [⟨0, .block idleBlock, 5, .refresh⟩, ⟨200, .block idleBlock, 5, .read .curr .other 5 0⟩]

/-- Two good transfers, with the wrap of the counter between them. -/
theorem astralRead_apart_goodCalls :
    (traffic wrappingClock (Timed.start.steps wrappingClock goodCalls)).length = 2 ∧
      (traffic wrappingClock (Timed.start.steps wrappingClock goodCalls)).IsChain
        (Apart wrappingClock) :=
  ⟨by decide, (astralRead_apart (Timed.start.steps_run wrappingClock goodCalls)).1 (by decide)⟩

/-- Two reads a tick apart, on a chip that does not answer. -/
def failingCalls : List TimedCall :=
  [⟨200, .error EIO, 0, .read .curr .other 5 0⟩, ⟨1, .error EIO, 0, .read .curr .other 5 0⟩]

/-- On an attached chip whose transfers fail, two consecutive ones are a tick apart: not
even the end of the second is `ASTRAL_CACHE_TTL` after the beginning of the first. -/
theorem astralRead_apart_failingCalls :
    ¬ ∀ (clk : Clock) (s t : Timed) (l : List (Timed × TimedCall)),
      Reachable (timedSystem clk) s → s.data.valid = true →
      (∀ p ∈ l, ∃ type attr channel val, p.2.request = .read type attr channel val) →
      Run (timedSystem clk) s l t →
      (traffic clk l).IsChain fun a b => clk.ticks a.begun + clk.ttl ≤ clk.ticks b.ended := by
  intro h
  let s := Timed.start.call wrappingClock ⟨0, .block idleBlock, 5, .refresh⟩
  have hreads : ∀ p ∈ s.steps wrappingClock failingCalls,
      ∃ type attr channel val, p.2.request = .read type attr channel val := by
    intro p hp
    simp only [failingCalls, Timed.steps, List.mem_cons, List.not_mem_nil, or_false] at hp
    rcases hp with rfl | rfl
    exacts [⟨_, _, _, _, rfl⟩, ⟨_, _, _, _, rfl⟩]
  have hchain := h wrappingClock s _ _ (timedSystem_call timedSystem_start _) (by decide) hreads
    (s.steps_run wrappingClock failingCalls)
  exact absurd hchain (by decide)

end Astral
