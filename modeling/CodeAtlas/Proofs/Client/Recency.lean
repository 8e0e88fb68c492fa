import CodeAtlas.Proofs.Client.History
import Mathlib.Data.List.Nodup

/-!
# The cache in the order of use

Answers are looked up and kept, step after step, by a clock that does not go back.  The cache is related to this
history: it holds answers in the order of their last use, each as it was last kept.

* `ClientState.cached?_cases`, `ClientState.keep?_eq`: what one step does to the cache;
* **`ClientState.cache_recency`**: the cache is bounded, ordered by last use, and gives back what was last kept for a
  time.
-/

namespace CodeAtlas

open List

/-! ### Steps -/

inductive CacheStep where
  | look (now : Binary64) (key : String)
  | keep (now : Binary64) (key : String) (answer : Value)

namespace CacheStep

def time : CacheStep → Binary64
  | look now _ => now
  | keep now _ _ => now

/-- The key that is looked up or under which an answer is kept. -/
def key : CacheStep → String
  | look _ key => key
  | keep _ key _ => key

/-- The clock does not go back; the last step comes first. -/
def IsClocked (steps : List CacheStep) : Prop := steps.Pairwise fun later earlier => earlier.time.le later.time = true

def lastKept? : List CacheStep → String → Option (Binary64 × Value)
  | [], _ => none
  | look _ _ :: steps, key => lastKept? steps key
  | keep now k answer :: steps, key => if k = key then some (now, answer) else lastKept? steps key

theorem keep_mem_of_lastKept? {steps : List CacheStep} {key : String} {t : Binary64} {answer : Value}
    (h : lastKept? steps key = some (t, answer)) : keep t key answer ∈ steps := by
  induction steps with
  | nil => cases h
  | cons step steps ih =>
    cases step with
    | look now k => exact mem_cons_of_mem _ (ih h)
    | keep now k v =>
      rw [lastKept?] at h
      split at h
      next hkey =>
        cases h
        exact hkey ▸ mem_cons_self
      · exact mem_cons_of_mem _ (ih h)

end CacheStep

/-- When a key was used: how many steps were made before, and what the clock showed. -/
structure CacheUse where
  place : Nat
  time : Binary64

namespace ClientState

/-- The client after a step.  An answer that cannot be kept leaves it as it is. -/
def step (c : ClientState) : CacheStep → ClientState
  | .look now key => (c.cached? now key).2
  | .keep now key answer => (c.keep? now key answer).getD c

def afterSteps (s : ClientSettings) : List CacheStep → ClientState
  | [] => { settings := s }
  | step :: steps => (afterSteps s steps).step step

/-- Whether a step uses its key: the key is found, or an answer is kept. -/
def uses (c : ClientState) : CacheStep → Bool
  | .look now key => (c.cached? now key).1.isSome
  | .keep now key answer => (c.keep? now key answer).isSome

def lastUse? (s : ClientSettings) : List CacheStep → String → Option CacheUse
  | [], _ => none
  | step :: steps, key =>
    if step.key = key ∧ (afterSteps s steps).uses step = true then some ⟨steps.length, step.time⟩
    else lastUse? s steps key

def IsOlder (s : ClientSettings) (steps : List CacheStep) (a b : String) : Prop :=
  ∃ u v, lastUse? s steps a = some u ∧ lastUse? s steps b = some v ∧ u.place < v.place ∧ u.time.le v.time = true

/-- An entry is what was last kept under its key, with the time until which it is kept. -/
def IsLastKept (s : ClientSettings) (steps : List CacheStep) (e : CachedAnswer) : Prop :=
  ∃ t, CacheStep.lastKept? steps e.key = some (t, e.answer) ∧ t.addInt? s.cacheLifetime = some e.expires

/-- What holds of a cache after some steps. -/
structure IsOrdered (s : ClientSettings) (steps : List CacheStep) (cache : AnswerCache) : Prop where
  length_le : cache.length ≤ s.cacheCapacity.toNat
  used : ∀ e ∈ cache, ∃ u, lastUse? s steps e.key = some u
  older : cache.Pairwise fun e f => IsOlder s steps e.key f.key
  lastKept : ∀ e ∈ cache, IsLastKept s steps e

end ClientState

/-! ### One step -/

namespace AnswerCache

variable {c : AnswerCache} {e : CachedAnswer}

theorem mem_erase {key : String} : e ∈ c.erase key ↔ e ∈ c ∧ e.key ≠ key := by
  rw [erase, mem_filter, bne_iff_ne]

theorem erase_sublist (c : AnswerCache) (key : String) : (c.erase key).Sublist c := filter_sublist

theorem length_erase_lt (he : e ∈ c) : (c.erase e.key).length < c.length := by
  refine length_filter_lt_length_iff_exists.mpr ⟨e, he, ?_⟩
  simp

theorem get?_cases (c : AnswerCache) (now : Binary64) (key : String) :
    (c.get? now key = (none, c) ∧ ∀ e ∈ c, e.key ≠ key) ∨
      ∃ e ∈ c, e.key = key ∧ ((e.expires.lt now ∧ c.get? now key = (none, c.erase key)) ∨
        (e.expires.lt now = false ∧ c.get? now key = (some e.answer, c.erase key ++ [e]))) := by
  rw [get?]
  split
  next h =>
    refine .inl ⟨rfl, fun e he hkey => ?_⟩
    have hnone := find?_eq_none.mp h e he
    simp [hkey] at hnone
  next e h =>
    refine .inr ⟨e, mem_of_find?_eq_some h, ?_, ?_⟩
    · simpa using find?_some h
    · split
      next hlt => exact .inl ⟨hlt, rfl⟩
      next hlt => exact .inr ⟨Bool.not_eq_true _ ▸ hlt, rfl⟩

theorem put_eq {capacity : Nat} (hpos : 0 < capacity) (hlength : c.length ≤ capacity)
    (e : CachedAnswer) : ∃ evicted kept, c.erase e.key = evicted ++ kept ∧ c.put capacity e = kept ++ [e] ∧
      evicted.length ≤ 1 ∧ (evicted ≠ [] → (kept ++ [e]).length = capacity) ∧ (kept ++ [e]).length ≤ capacity := by
  have herase : (c.erase e.key).length ≤ capacity := Nat.le_trans (erase_sublist c e.key).length_le hlength
  refine ⟨(c.erase e.key).take ((c.erase e.key).length + 1 - capacity),
    (c.erase e.key).drop ((c.erase e.key).length + 1 - capacity), (take_append_drop ..).symm, ?_, ?_, ?_, ?_⟩
  · rw [put, length_append, length_singleton, drop_append_of_le_length (by omega)]
  · rw [length_take]
    omega
  · intro hevicted
    have hfull : 0 < (c.erase e.key).length + 1 - capacity := by
      rw [Nat.pos_iff_ne_zero]
      intro hzero
      rw [hzero] at hevicted
      exact hevicted rfl
    rw [length_append, length_drop, length_singleton]
    omega
  · rw [length_append, length_drop, length_singleton]
    omega

end AnswerCache

namespace ClientState

variable {s : ClientSettings} {steps : List CacheStep} {step : CacheStep} {c : ClientState} {key : String}
  {u : CacheUse}

theorem cached?_of_enabled (h : c.settings.cacheEnabled) (now : Binary64) (key : String) :
    c.cached? now key = ((c.cache.get? now key).1, { c with cache := (c.cache.get? now key).2 }) := by
  rw [cached?, if_pos h]

theorem keep?_of_enabled (h : c.settings.cacheEnabled) (now : Binary64) (key : String)
    (answer : Value) : c.keep? now key answer = (now.addInt? c.settings.cacheLifetime).map fun expires =>
      { c with cache := c.cache.put c.settings.cacheCapacity.toNat ⟨key, expires, answer⟩ } := by
  rw [keep?, if_pos h]

theorem settings_afterSteps (s : ClientSettings) (steps : List CacheStep) : (afterSteps s steps).settings = s := by
  induction steps with
  | nil => rfl
  | cons step steps ih =>
    rw [afterSteps]
    cases step with
    | look now key =>
      rw [ClientState.step, cached?]
      split <;> exact ih
    | keep now key answer =>
      rw [ClientState.step, keep?]
      split
      · cases now.addInt? (afterSteps s steps).settings.cacheLifetime <;> exact ih
      · exact ih

/-! ### Last uses -/

theorem lastUse?_of_unused (h : ¬ (step.key = key ∧ (afterSteps s steps).uses step)) :
    lastUse? s (step :: steps) key = lastUse? s steps key := by
  rw [lastUse?, if_neg h]

theorem lastUse?_of_used (h : (afterSteps s steps).uses step) :
    lastUse? s (step :: steps) step.key = some ⟨steps.length, step.time⟩ := by
  rw [lastUse?, if_pos ⟨rfl, h⟩]

theorem lastUse?_mem (h : lastUse? s steps key = some u) :
    u.place < steps.length ∧ ∃ step ∈ steps, step.time = u.time := by
  induction steps with
  | nil => cases h
  | cons step steps ih =>
    by_cases hused : step.key = key ∧ (afterSteps s steps).uses step = true
    · rw [lastUse?, if_pos hused] at h
      cases h
      exact ⟨Nat.lt_succ_self _, step, mem_cons_self, rfl⟩
    · rw [lastUse?_of_unused hused] at h
      obtain ⟨hplace, other, hother, htime⟩ := ih h
      exact ⟨Nat.lt_succ_of_lt hplace, other, mem_cons_of_mem _ hother, htime⟩

theorem isOlder_of_used (hclock : CacheStep.IsClocked (step :: steps))
    (hkey : step.key ≠ key) (hu : lastUse? s steps key = some u) (hused : (afterSteps s steps).uses step) :
    IsOlder s (step :: steps) key step.key := by
  obtain ⟨hplace, other, hother, htime⟩ := lastUse?_mem hu
  refine ⟨u, _, ?_, lastUse?_of_used hused, hplace, ?_⟩
  · rw [lastUse?_of_unused fun h => hkey h.1, hu]
  · rw [← htime]
    exact (pairwise_cons.mp hclock).1 other hother

/-! ### Runs of steps -/

namespace IsOrdered

variable {cache rest : AnswerCache}

theorem sublist (h : IsOrdered s steps cache) (hsub : rest.Sublist cache) : IsOrdered s steps rest where
  length_le := Nat.le_trans hsub.length_le h.length_le
  used e he := h.used e (hsub.subset he)
  older := h.older.sublist hsub
  lastKept e he := h.lastKept e (hsub.subset he)

theorem nodup_keys (h : IsOrdered s steps cache) : cache.keys.Nodup := by
  refine pairwise_map.mpr (h.older.imp ?_)
  rintro e f ⟨u, v, hu, hv, hlt, _⟩ heq
  rw [heq, hv] at hu
  cases hu
  exact Nat.lt_irrefl _ hlt

theorem unused (h : IsOrdered s steps cache) (hunused : (afterSteps s steps).uses step = false)
    (hkept : ∀ e ∈ cache, CacheStep.lastKept? (step :: steps) e.key = CacheStep.lastKept? steps e.key) :
    IsOrdered s (step :: steps) cache := by
  have hsame : ∀ key, lastUse? s (step :: steps) key = lastUse? s steps key := by
    intro key
    refine lastUse?_of_unused fun hused => ?_
    rw [hused.2] at hunused
    cases hunused
  refine ⟨h.length_le, fun e he => ?_, h.older.imp ?_, fun e he => ?_⟩
  · rw [hsame]
    exact h.used e he
  · intro e f hef
    unfold IsOlder at hef ⊢
    rw [hsame, hsame]
    exact hef
  · unfold IsLastKept
    rw [hkept e he]
    exact h.lastKept e he

theorem used_last (h : IsOrdered s steps rest) {e : CachedAnswer} (hclock : CacheStep.IsClocked (step :: steps))
    (hused : (afterSteps s steps).uses step) (hkey : e.key = step.key) (hrest : ∀ f ∈ rest, f.key ≠ step.key)
    (hlength : (rest ++ [e]).length ≤ s.cacheCapacity.toNat) (hkept : IsLastKept s (step :: steps) e)
    (hothers : ∀ f ∈ rest, CacheStep.lastKept? (step :: steps) f.key = CacheStep.lastKept? steps f.key) :
    IsOrdered s (step :: steps) (rest ++ [e]) := by
  have hsame : ∀ f ∈ rest, lastUse? s (step :: steps) f.key = lastUse? s steps f.key := fun f hf =>
    lastUse?_of_unused fun h => hrest f hf h.1.symm
  refine ⟨hlength, fun f hf => ?_, pairwise_append.mpr ⟨?_, pairwise_singleton .., ?_⟩, fun f hf => ?_⟩
  · rcases mem_append.mp hf with hf | hf
    · rw [hsame f hf]
      exact h.used f hf
    · rw [mem_singleton.mp hf, hkey]
      exact ⟨_, lastUse?_of_used hused⟩
  · refine h.older.imp_of_mem ?_
    intro f g hf hg hfg
    unfold IsOlder at hfg ⊢
    rw [hsame f hf, hsame g hg]
    exact hfg
  · intro f hf g hg
    obtain ⟨u, hu⟩ := h.used f hf
    rw [mem_singleton.mp hg, hkey]
    exact isOlder_of_used hclock (Ne.symm (hrest f hf)) hu hused
  · rcases mem_append.mp hf with hf | hf
    · unfold IsLastKept
      rw [hothers f hf]
      exact h.lastKept f hf
    · rw [mem_singleton.mp hf]
      exact hkept

end IsOrdered

variable {now : Binary64} {answer : Value} {f : CallFailure} {q : CallRequest}

theorem isOrdered_look (henabled : s.cacheEnabled)
    (hclock : CacheStep.IsClocked (.look now key :: steps)) (h : IsOrdered s steps (afterSteps s steps).cache) :
    IsOrdered s (.look now key :: steps) (afterSteps s (.look now key :: steps)).cache := by
  have hsettings := settings_afterSteps s steps
  have hcached := cached?_of_enabled (c := afterSteps s steps) (by rw [hsettings]; exact henabled) now key
  have huses : (afterSteps s steps).uses (.look now key) = ((afterSteps s steps).cache.get? now key).1.isSome := by
    rw [uses, hcached]
  rw [afterSteps, ClientState.step, hcached]
  rcases (afterSteps s steps).cache.get?_cases now key with ⟨hget, _⟩ | ⟨e, he, hkey, ⟨_, hget⟩ | ⟨_, hget⟩⟩
  · rw [hget] at huses ⊢
    exact h.unused huses fun _ _ => rfl
  · rw [hget] at huses ⊢
    exact (h.sublist (AnswerCache.erase_sublist ..)).unused huses fun _ _ => rfl
  · rw [hget] at huses ⊢
    refine (h.sublist (AnswerCache.erase_sublist ..)).used_last hclock huses hkey ?_ ?_ ?_ fun _ _ => rfl
    · exact fun f hf => (AnswerCache.mem_erase.mp hf).2
    · have hlt := AnswerCache.length_erase_lt he
      rw [hkey] at hlt
      rw [length_append, length_singleton]
      exact Nat.le_trans hlt h.length_le
    · exact h.lastKept e he

theorem isOrdered_keep (henabled : s.cacheEnabled)
    (hcapacity : 1 ≤ s.cacheCapacity) (hclock : CacheStep.IsClocked (.keep now key answer :: steps))
    (h : IsOrdered s steps (afterSteps s steps).cache) :
    IsOrdered s (.keep now key answer :: steps) (afterSteps s (.keep now key answer :: steps)).cache := by
  have hsettings := settings_afterSteps s steps
  have hkeep := keep?_of_enabled (c := afterSteps s steps) (by rw [hsettings]; exact henabled) now key answer
  rw [hsettings] at hkeep
  have hothers : ∀ f : CachedAnswer, f.key ≠ key →
      CacheStep.lastKept? (.keep now key answer :: steps) f.key = CacheStep.lastKept? steps f.key := fun f hf => by
    rw [CacheStep.lastKept?, if_neg (Ne.symm hf)]
  rw [afterSteps, ClientState.step]
  cases hadd : now.addInt? s.cacheLifetime with
  | none =>
    -- the lifetime is too large for a number, so nothing was ever kept
    have hempty : (afterSteps s steps).cache = [] := by
      refine eq_nil_iff_forall_not_mem.mpr fun e he => ?_
      obtain ⟨t, _, ht⟩ := h.lastKept e he
      obtain ⟨x, hx, _⟩ := Option.map_eq_some_iff.mp ht
      rw [Binary64.addInt?, hx] at hadd
      cases hadd
    have huses : (afterSteps s steps).uses (.keep now key answer) = false := by
      rw [uses, hkeep, hadd]
      rfl
    rw [hkeep, hadd]
    refine h.unused huses fun e he => ?_
    rw [hempty] at he
    cases he
  | some expires =>
    have huses : (afterSteps s steps).uses (.keep now key answer) := by
      rw [uses, hkeep, hadd]
      rfl
    obtain ⟨evicted, kept, herase, hput, _, _, hlength⟩ :=
      AnswerCache.put_eq (by omega) h.length_le ⟨key, expires, answer⟩
    have hsub : kept.Sublist ((afterSteps s steps).cache.erase key) := by
      rw [herase]
      exact sublist_append_right ..
    have hkept : ∀ f ∈ kept, f.key ≠ key := fun f hf => (AnswerCache.mem_erase.mp (hsub.subset hf)).2
    have hlast : IsLastKept s (.keep now key answer :: steps) ⟨key, expires, answer⟩ := by
      refine ⟨now, ?_, hadd⟩
      rw [CacheStep.lastKept?, if_pos rfl]
    rw [hkeep, hadd, Option.map_some, Option.getD_some, hput]
    exact (h.sublist (hsub.trans (AnswerCache.erase_sublist ..))).used_last hclock huses rfl hkept hlength hlast
      fun f hf => hothers f (hkept f hf)

/-- **What holds of the cache after every run of steps.** -/
theorem isOrdered_afterSteps (henabled : s.cacheEnabled) (hcapacity : 1 ≤ s.cacheCapacity)
    (steps : List CacheStep) (hclock : CacheStep.IsClocked steps) : IsOrdered s steps (afterSteps s steps).cache := by
  induction steps with
  | nil =>
    refine ⟨Nat.zero_le _, fun e he => ?_, List.Pairwise.nil, fun e he => ?_⟩
    · cases he
    · cases he
  | cons step steps ih =>
    have hrest := ih (pairwise_cons.mp hclock).2
    cases step with
    | look now key => exact isOrdered_look henabled hclock hrest
    | keep now key answer => exact isOrdered_keep henabled hcapacity hclock hrest

theorem lastKept?_of_cached? (henabled : s.cacheEnabled)
    (hclock : CacheStep.IsClocked (.look now key :: steps)) (h : IsOrdered s steps (afterSteps s steps).cache)
    (hfound : ((afterSteps s steps).cached? now key).1 = some answer) :
    ∃ t expires, CacheStep.lastKept? steps key = some (t, answer) ∧ t.addInt? s.cacheLifetime = some expires ∧
      now.le expires := by
  rw [cached?_of_enabled (by rw [settings_afterSteps]; exact henabled)] at hfound
  rcases (afterSteps s steps).cache.get?_cases now key with ⟨hget, _⟩ | ⟨e, he, rfl, ⟨_, hget⟩ | ⟨hlive, hget⟩⟩
  · rw [hget] at hfound
    cases hfound
  · rw [hget] at hfound
    cases hfound
  · rw [hget] at hfound
    cases hfound
    obtain ⟨t, ht, hexpires⟩ := h.lastKept e he
    have hle : t.le now := (pairwise_cons.mp hclock).1 _ (CacheStep.keep_mem_of_lastKept? ht)
    obtain ⟨ht_num, hnow_num⟩ := Binary64.ne_nan_of_le hle
    exact ⟨t, e.expires, ht, hexpires,
      Binary64.le_of_not_lt hnow_num (Binary64.ne_nan_of_addInt? ht_num hexpires) hlive⟩

theorem evicts_of_keep? (henabled : s.cacheEnabled) (hcapacity : 1 ≤ s.cacheCapacity)
    (h : IsOrdered s steps (afterSteps s steps).cache) (hkeep : (afterSteps s steps).keep? now key answer = some c) :
    ∃ evicted kept expires, (afterSteps s steps).cache.erase key = evicted ++ kept ∧
      c.cache = kept ++ [⟨key, expires, answer⟩] ∧ evicted.length ≤ 1 ∧
      (evicted ≠ [] → (c.cache.length : Int) = s.cacheCapacity) ∧
      ∀ e ∈ evicted, ∀ f ∈ kept, IsOlder s steps e.key f.key := by
  have hsettings := settings_afterSteps s steps
  rw [keep?_of_enabled (by rw [hsettings]; exact henabled), hsettings] at hkeep
  obtain ⟨expires, _, rfl⟩ := Option.map_eq_some_iff.mp hkeep
  obtain ⟨evicted, kept, herase, hput, hfew, hfull, _⟩ :=
    AnswerCache.put_eq (by omega) h.length_le ⟨key, expires, answer⟩
  have hordered : (evicted ++ kept).Pairwise fun e f => IsOlder s steps e.key f.key := by
    rw [← herase]
    exact h.older.sublist (AnswerCache.erase_sublist ..)
  refine ⟨evicted, kept, expires, herase, hput, hfew, fun hevicted => ?_, (pairwise_append.mp hordered).2.2⟩
  have hlength := hfull hevicted
  show ((AnswerCache.put _ _ _).length : Int) = _
  rw [hput]
  omega

/-! ### Calls that raise -/

/-- All entries but an expired one under a key are as they were. -/
structure Spares (now : Binary64) (key : String) (before after : AnswerCache) : Prop where
  others : after.erase key = before.erase key
  own : ∀ e ∈ before, e.key = key → e.expires.lt now = false → e ∈ after
  subset : ∀ e ∈ after, e ∈ before

theorem spares_get? {cache : AnswerCache} (hkeys : cache.keys.Nodup) (now : Binary64) (key : String) :
    Spares now key cache (cache.get? now key).2 := by
  have hunique : ∀ e ∈ cache, ∀ f ∈ cache, e.key = f.key → e = f := fun e he f hf heq =>
    inj_on_of_nodup_map hkeys he hf heq
  have hagain : (cache.erase key).erase key = cache.erase key := by simp [AnswerCache.erase]
  rcases cache.get?_cases now key with ⟨hget, _⟩ | ⟨e, he, rfl, ⟨hover, hget⟩ | ⟨hlive, hget⟩⟩
  · rw [hget]
    exact ⟨rfl, fun _ h _ _ => h, fun _ h => h⟩
  · rw [hget]
    refine ⟨hagain, fun f hf hkey hflive => ?_, fun f hf => (AnswerCache.mem_erase.mp hf).1⟩
    rw [hunique f hf e he hkey, hover] at hflive
    cases hflive
  · rw [hget]
    refine ⟨?_, fun f hf hkey _ => ?_, fun f hf => ?_⟩
    · have hlast : AnswerCache.erase [e] e.key = [] := by simp [AnswerCache.erase]
      have happend : AnswerCache.erase (cache.erase e.key ++ [e]) e.key =
          (cache.erase e.key).erase e.key ++ AnswerCache.erase [e] e.key := filter_append ..
      rw [happend, hagain, hlast, append_nil]
    · rw [hunique f hf e he hkey]
      exact mem_append_right _ mem_cons_self
    · rcases mem_append.mp hf with hf | hf
      · exact (AnswerCache.mem_erase.mp hf).1
      · rw [mem_singleton.mp hf]
        exact he

theorem cache_afterFailure (c : ClientState) (now : Binary64) (last : Option String) :
    (c.afterFailure now last).2.cache = c.cache := by
  unfold afterFailure
  dsimp only
  split
  · split <;> rfl
  · rfl

theorem cache_settle_of_error {v : Value}
    (h : (c.settle now key (.answered v)).1 = .error f) : (c.settle now key (.answered v)).2.cache = c.cache := by
  unfold settle at h ⊢
  dsimp only at h ⊢
  split at h
  · cases h
  · rfl

theorem cache_of_raised (hretries : 0 ≤ c.settings.maxRetries) (hraised : (c.record q).result = .error f) :
    (c.record q).after.cache = c.cache ∨ (c.record q).after.cache = (c.afterLookup q).cache := by
  have hend := ending_record c q hretries
  generalize c.record q = r at hend hraised
  cases hend with
  | refused => exact .inl rfl
  | recalled => exact .inr rfl
  | answered => exact .inr (cache_settle_of_error hraised)
  | failed => exact .inr (cache_afterFailure ..)
  | overrun => exact .inr rfl

theorem spares_of_raised (hretries : 0 ≤ c.settings.maxRetries)
    (hkeys : c.cache.keys.Nodup) (hraised : (c.record q).result = .error f) :
    Spares q.clock.looked (requestKey q.payload) c.cache (c.record q).after.cache := by
  rcases cache_of_raised hretries hraised with hcache | hcache
  · rw [hcache]
    exact ⟨rfl, fun _ h _ _ => h, fun _ h => h⟩
  · rw [hcache, afterLookup]
    by_cases henabled : c.settings.cacheEnabled = true
    · rw [cached?_of_enabled henabled]
      exact spares_get? hkeys ..
    · rw [cached?, if_neg henabled]
      exact ⟨rfl, fun _ h _ _ => h, fun _ h => h⟩

/-- **The cache of answers.**  After every run of steps by a clock that does not go back: the cache holds no more
entries than it has room for, under distinct keys and in the order of their last use; what is found was last kept under
its key, and the clock shows no more than the time of that plus the lifetime; to keep an answer at most one entry is
dropped, from a full cache, and it is older than all others; and a call that raises leaves all entries but an expired
one under its own key as they are. -/
theorem cache_recency {env : Environment} {s : ClientSettings} (hs : ClientSettings.ofEnvironment env = .ok s)
    (henabled : s.cacheEnabled = true) (steps : List CacheStep) (hclock : CacheStep.IsClocked steps) :
    ((afterSteps s steps).cache.length : Int) ≤ s.cacheCapacity ∧ (afterSteps s steps).cache.keys.Nodup ∧
      ((afterSteps s steps).cache.Pairwise fun e f => IsOlder s steps e.key f.key) ∧
      (∀ now key answer, CacheStep.IsClocked (.look now key :: steps) →
        ((afterSteps s steps).cached? now key).1 = some answer →
          ∃ t expires, CacheStep.lastKept? steps key = some (t, answer) ∧
            t.addInt? s.cacheLifetime = some expires ∧ now.le expires = true) ∧
      (∀ now key answer c, (afterSteps s steps).keep? now key answer = some c →
        ∃ evicted kept expires, (afterSteps s steps).cache.erase key = evicted ++ kept ∧
          c.cache = kept ++ [⟨key, expires, answer⟩] ∧ evicted.length ≤ 1 ∧
          (evicted ≠ [] → (c.cache.length : Int) = s.cacheCapacity) ∧
          ∀ e ∈ evicted, ∀ f ∈ kept, IsOlder s steps e.key f.key) ∧
      ∀ (failures : Nat) (disabledUntil : Binary64) (q : CallRequest) (f : CallFailure),
        ((⟨s, (afterSteps s steps).cache, failures, disabledUntil⟩ : ClientState).record q).result = .error f →
          Spares q.clock.looked (requestKey q.payload) (afterSteps s steps).cache
            ((⟨s, (afterSteps s steps).cache, failures, disabledUntil⟩ : ClientState).record q).after.cache := by
  obtain ⟨hretries, hcapacity⟩ := ClientSettings.bounds_of_ofEnvironment hs
  have hordered := isOrdered_afterSteps henabled hcapacity steps hclock
  refine ⟨?_, hordered.nodup_keys, hordered.older, ?_, ?_, ?_⟩
  · have hlength := hordered.length_le
    omega
  · intro now key answer hnext hfound
    exact lastKept?_of_cached? henabled hnext hordered hfound
  · intro now key answer c hkeep
    exact evicts_of_keep? henabled hcapacity hordered hkeep
  · intro failures disabledUntil q f hraised
    exact spares_of_raised (c := ⟨s, (afterSteps s steps).cache, failures, disabledUntil⟩) hretries
      hordered.nodup_keys hraised

/-- The settings of a client without a key that keeps two answers. -/
def twoAnswers : ClientSettings where
  enabled := false
  key := .null
  url := ClientSettings.defaultUrl
  timeout := .ofInt 120
  maxRetries := 2
  backoff := .finite false 1 (-1)
  failureThreshold := 5
  cooldown := 300
  cacheEnabled := true
  cacheLifetime := 900
  cacheCapacity := 2

/-- Two answers are kept, and the first one is looked up. -/
def usedAgain : List CacheStep :=
  [.look (.ofInt 3) "a", .keep (.ofInt 2) "b" (.nat 2), .keep (.ofInt 1) "a" (.nat 1)]

theorem cache_recency_usedAgain :
    ClientSettings.ofEnvironment [("GROQ_CACHE_ENABLED", "true"), ("GROQ_CACHE_MAX_ITEMS", "2")] = .ok twoAnswers ∧
      CacheStep.IsClocked usedAgain ∧ (afterSteps twoAnswers usedAgain).cache.keys = ["b", "a"] ∧
      IsOlder twoAnswers usedAgain "b" "a" := by
  have hs : ClientSettings.ofEnvironment [("GROQ_CACHE_ENABLED", "true"), ("GROQ_CACHE_MAX_ITEMS", "2")] =
      .ok twoAnswers := by rfl
  have hclock : CacheStep.IsClocked usedAgain := by
    unfold CacheStep.IsClocked
    decide +kernel
  have hkeys : (afterSteps twoAnswers usedAgain).cache.keys = ["b", "a"] := by decide +kernel
  obtain ⟨_, _, holder, _⟩ := cache_recency hs rfl usedAgain hclock
  have hpairs : (afterSteps twoAnswers usedAgain).cache.keys.Pairwise (IsOlder twoAnswers usedAgain) :=
    List.pairwise_map.mpr holder
  exact ⟨hs, hclock, hkeys, (List.pairwise_cons.mp hpairs).1 "a" (by simp)⟩

end ClientState

end CodeAtlas
