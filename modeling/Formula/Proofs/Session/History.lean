import Formula.Proofs.Double.Rounding
import Formula.Proofs.Recency
import Formula.Proofs.Session.Isolation

/-!
# The cache and its figures, from the history

What the cache of a session holds, and what its figures are, is settled by the keys of the
expressions that were built since the cache was last reset, in order. Of these keys only those of
texts that compile are uses of the cache; a text that does not compile is counted and leaves no
trace. `Follows` says how the cache stands to the history, `Follows.construct` is the step for one
construction, and `follows_after` the one for a list of requests.
-/

namespace Formula

/-! ## Histories -/

/-- A text, and whether its constants are folded. -/
abbrev CacheKey := String × Bool

/-- Whether the text of a key compiles. -/
def CacheKey.compiles (K : Kernels) (k : CacheKey) : Bool := (Template.ofText K k.2 k.1).isOk

/-- The keys whose texts compile. -/
def usesOf (K : Kernels) (history : List CacheKey) : List CacheKey :=
  history.filter (CacheKey.compiles K)

/-- Whether a key is still held: it was used, and fewer other keys than can be held were used since.
The latest use comes first. -/
def IsHeld (K : Kernels) (capacity : Nat) (history : List CacheKey) (k : CacheKey) : Prop :=
  k ∈ usesOf K history ∧
    ((usesOf K history).takeWhile fun other => !other == k).eraseDups.length < capacity

/-- The key that a request has an expression built for. -/
def Request.builds (settings : Settings) : Request → Option CacheKey
  | .new _ formula fold | .attempt _ formula fold => some (formula, settings.fold fold)
  | .set _ _ _ | .get _ _ | .lookup _ _ | .eval _ | .call _ _ | .batch _ _ | .freeVariables _
  | .variables _ | .source _ | .text _ | .figures | .reset | .foldingDefault => none

/-- A history with one more request. A reset begins a new history. -/
def Settings.record (settings : Settings) (history : List CacheKey) (r : Request) :
    List CacheKey :=
  match r with
  | .reset => []
  | r => (r.builds settings).toList ++ history

/-- The keys of all constructions since the last reset, the latest first. -/
def Settings.history (settings : Settings) (rs : List Request) : List CacheKey :=
  rs.foldl settings.record []

/-! ## One construction -/

namespace CompileCache

/-- The cache holds the keys used last, and has counted all constructions. -/
structure Follows (c : CompileCache) (K : Kernels) (history : List CacheKey) : Prop where
  recent : c.templates.Recent (usesOf K history)
  counted : c.hits + c.misses = history.length

variable {c : CompileCache} {K : Kernels} {history : List CacheKey}

theorem follows_empty (K : Kernels) (capacity : Nat) : (empty capacity).Follows K [] where
  recent := Cache.recent_empty capacity
  counted := rfl

theorem usesOf_cons (K : Kernels) (k : CacheKey) (history : List CacheKey) :
    usesOf K (k :: history)
      = if k.compiles K then k :: usesOf K history else usesOf K history :=
  List.filter_cons

theorem compiles_of_mem_usesOf {k : CacheKey} (h : k ∈ usesOf K history) : k.compiles K :=
  (List.mem_filter.mp h).2

/-- A formula is found exactly if its key is still held. -/
theorem Follows.isSome_find?_iff (h : c.Follows K history) (k : CacheKey) :
    (c.templates.find? k).isSome ↔ IsHeld K c.templates.capacity history k :=
  h.recent.isSome_find?_iff k

/-- **What one construction does to a cache.** A formula that is found is a hit. One that is not
found is a miss, and it is stored if the text compiles. -/
theorem Follows.construct (h : c.Follows K history) (k : CacheKey) :
    let c' := (c.construct K k.1 k.2).1
    c'.Follows K (k :: history) ∧ c'.templates.capacity = c.templates.capacity ∧
      (IsHeld K c.templates.capacity history k → c'.hits = c.hits + 1 ∧ c'.misses = c.misses) ∧
      (¬IsHeld K c.templates.capacity history k →
        c'.hits = c.hits ∧ c'.misses = c.misses + 1) ∧
      (k.compiles K = false → c' = { c with misses := c.misses + 1 }) := by
  have hcount := h.counted
  have hheld := h.isSome_find?_iff k
  have huses := usesOf_cons K k history
  unfold CompileCache.construct
  cases hfind : c.templates.find? k with
  | some t =>
    have hk : IsHeld K c.templates.capacity history k := hheld.mp (by rw [hfind]; rfl)
    have hcompiles := compiles_of_mem_usesOf hk.1
    rw [if_pos hcompiles] at huses
    refine ⟨⟨huses ▸ h.recent.store k t, ?_⟩, rfl, fun _ => ⟨rfl, rfl⟩, fun hn => absurd hk hn,
      fun hn => by simp [hcompiles] at hn⟩
    show c.hits + 1 + c.misses = history.length + 1
    omega
  | none =>
    have hk : ¬IsHeld K c.templates.capacity history k := by
      rw [← hheld, hfind]
      simp
    cases ht : Template.ofText K k.2 k.1 with
    | ok t =>
      have hcompiles : k.compiles K := by simp [CacheKey.compiles, ht, Except.isOk, Except.toBool]
      rw [if_pos hcompiles] at huses
      refine ⟨⟨huses ▸ h.recent.store k t, ?_⟩, rfl, fun hn => absurd hn hk, fun _ => ⟨rfl, rfl⟩,
        fun hn => by simp [hcompiles] at hn⟩
      show c.hits + (c.misses + 1) = history.length + 1
      omega
    | error e =>
      have hcompiles : ¬k.compiles K := by simp [CacheKey.compiles, ht, Except.isOk, Except.toBool]
      rw [if_neg hcompiles] at huses
      refine ⟨⟨huses ▸ h.recent, ?_⟩, rfl, fun hn => absurd hn hk, fun _ => ⟨rfl, rfl⟩,
        fun _ => rfl⟩
      show c.hits + (c.misses + 1) = history.length + 1
      omega

/-! ## Figures -/

/-- **The share of the hits is the double nearest to it.** -/
theorem hitRate_eq (c : CompileCache) :
    (c.hits + c.misses = 0 → c.hitRate = .zero) ∧
      (c.hits + c.misses ≠ 0 → ∃ m : Magnitude, c.hitRate = .num false m ∧
        m.IsNearest (c.hits * Magnitude.unitsPerOne) (c.hits + c.misses)) := by
  unfold hitRate
  refine ⟨fun h => if_pos h, fun h => ⟨_, if_neg h, ?_⟩⟩
  exact Magnitude.isNearest_ofRatio _ (Nat.pos_of_ne_zero h)

end CompileCache

/-! ## All requests -/

/-- The number of formulas that an environment has kept is at least one. -/
theorem Settings.cacheCapacity_pos {env : List (String × String)} {settings : Settings}
    (h : Settings.ofEnvironment env = .ok settings) : 1 ≤ settings.cacheCapacity := by
  unfold Settings.ofEnvironment at h
  simp only at h
  split at h
  · cases h
    exact show 1 ≤ 512 by decide
  · split at h
    · cases h
    · cases h
    · split at h
      · cases h
      · cases h
        exact Nat.le_max_left _ _

namespace Session

variable {s : Session} {K : Kernels}

theorem cache_construct (s : Session) (K : Kernels) (id text : String) (fold : Option Bool) :
    (s.construct K id text fold).1.cache
      = (s.cache.construct K text (s.settings.fold fold)).1 := by
  unfold construct
  cases s.cache.construct K text (s.settings.fold fold) with
  | mk cache built => cases built <;> rfl

/-- A request that builds an expression changes the cache as the construction does. -/
theorem cache_answer_of_builds (K : Kernels) {r : Request} {k : CacheKey}
    (h : r.builds s.settings = some k) :
    (s.answer K r).1.cache = (s.cache.construct K k.1 k.2).1 := by
  cases r with
  | new id text fold =>
    cases h
    rw [← s.cache_construct K id text fold, answer]
    cases s.construct K id text fold with
    | mk s' error => cases error <;> rfl
  | attempt id text fold =>
    cases h
    exact s.cache_construct K id text fold
  | _ => cases h

/-- What holds of a session, and after each answer by an expression, holds after the answer by a
name. -/
theorem fst_withBound {P : Session → Prop} (hs : P s) (id : String)
    {f : Expression → Session × Answer} (hf : ∀ e, P (f e).1) : P (s.withBound id f).1 := by
  unfold withBound
  cases s.bound.lookup id with
  | some e => exact hf e
  | none => exact hs

/-- Any other request but a reset leaves the cache as it is. -/
theorem cache_answer_of_not_builds (K : Kernels) {r : Request} (h : r.builds s.settings = none)
    (hreset : r ≠ .reset) : (s.answer K r).1.cache = s.cache := by
  cases r with
  | new | attempt => cases h
  | set id => exact fst_withBound (P := fun s' => s'.cache = s.cache) rfl id fun _ => rfl
  | call id bindings =>
    refine fst_withBound (P := fun s' => s'.cache = s.cache) rfl id fun e => ?_
    cases e.call K bindings <;> rfl
  | get | lookup | eval | batch | freeVariables | «variables» | source | text =>
    exact congrArg Session.cache (s.fst_ask _ _)
  | figures | foldingDefault => rfl
  | reset => exact absurd rfl hreset

/-- No request changes the settings. -/
theorem settings_answer (s : Session) (K : Kernels) (r : Request) :
    (s.answer K r).1.settings = s.settings := by
  have hconstruct : ∀ id text fold, (s.construct K id text fold).1.settings = s.settings := by
    intro id text fold
    unfold construct
    cases s.cache.construct K text (s.settings.fold fold) with
    | mk cache built => cases built <;> rfl
  cases r with
  | new id text fold =>
    rw [← hconstruct id text fold, answer]
    cases s.construct K id text fold with
    | mk s' error => cases error <;> rfl
  | attempt id text fold => exact hconstruct id text fold
  | set id => exact fst_withBound (P := fun s' => s'.settings = s.settings) rfl id fun _ => rfl
  | call id bindings =>
    refine fst_withBound (P := fun s' => s'.settings = s.settings) rfl id fun e => ?_
    cases e.call K bindings <;> rfl
  | get | lookup | eval | batch | freeVariables | «variables» | source | text =>
    exact congrArg Session.settings (s.fst_ask _ _)
  | figures | foldingDefault | reset => rfl

theorem settings_after (s : Session) (K : Kernels) (rs : List Request) :
    (s.after K rs).settings = s.settings := by
  induction rs generalizing s with
  | nil => rfl
  | cons r rs ih => exact (ih (s.answer K r).1).trans (s.settings_answer K r)

/-- **One request.** -/
theorem follows_answer {history : List CacheKey} (h : s.cache.Follows K history) (r : Request) :
    (s.answer K r).1.cache.Follows K (s.settings.record history r) ∧
      (s.answer K r).1.cache.templates.capacity = s.cache.templates.capacity := by
  by_cases hreset : r = .reset
  · subst hreset
    exact ⟨CompileCache.follows_empty K _, rfl⟩
  · have hrecord : s.settings.record history r = (r.builds s.settings).toList ++ history := by
      cases r <;> first | rfl | exact absurd rfl hreset
    rw [hrecord]
    cases hbuilds : r.builds s.settings with
    | some k =>
      obtain ⟨hfollows, hcapacity, -⟩ := h.construct k
      rw [cache_answer_of_builds K hbuilds]
      exact ⟨hfollows, hcapacity⟩
    | none =>
      rw [cache_answer_of_not_builds K hbuilds hreset]
      exact ⟨h, rfl⟩

/-- **All requests.** -/
theorem follows_after {history : List CacheKey} (h : s.cache.Follows K history)
    (rs : List Request) :
    (s.after K rs).cache.Follows K (rs.foldl s.settings.record history) ∧
      (s.after K rs).cache.templates.capacity = s.cache.templates.capacity := by
  induction rs generalizing s history with
  | nil => exact ⟨h, rfl⟩
  | cons r rs ih =>
    obtain ⟨hfollows, hcapacity⟩ := follows_answer h r
    have hstep := ih hfollows
    rw [s.settings_answer K r, hcapacity] at hstep
    exact hstep

end Session

/--
**The cache holds the keys used last, and its figures count all constructions.**

After any requests it holds the keys of the formulas that compiled since the last reset, as many of
those used last as it can. A construction is a hit exactly if its key is among them, that is, if its
formula compiled and fewer other ones than can be held were used since; any other construction is a
miss, and a text that does not compile changes nothing else. All constructions since the last reset
are counted, and the rate is the double nearest to the share of the hits. A reset answers these
figures and leaves the cache of a new session.
-/
theorem cache_after_start (K : Kernels) {env : List (String × String)} {settings : Settings}
    (henv : Settings.ofEnvironment env = .ok settings) (rs : List Request) :
    let s := (Session.start settings).after K rs
    let history := settings.history rs
    let capacity := settings.cacheCapacity
    1 ≤ capacity ∧
    s.cache.templates.keys = (usesOf K history).eraseDups.take capacity ∧
    (∀ r k, r.builds settings = some k →
      let c' := (s.answer K r).1.cache
      (IsHeld K capacity history k → c'.hits = s.cache.hits + 1 ∧ c'.misses = s.cache.misses) ∧
      (¬IsHeld K capacity history k →
        c'.hits = s.cache.hits ∧ c'.misses = s.cache.misses + 1) ∧
      (k.compiles K = false →
        c' = { s.cache with misses := s.cache.misses + 1 })) ∧
    ∃ f : CacheFigures,
      s.answer K .figures = (s, .figures f) ∧
      s.answer K .reset = ({ s with cache := (Session.start settings).cache }, .figures f) ∧
      f.hits = s.cache.hits ∧ f.misses = s.cache.misses ∧ f.hits + f.misses = history.length ∧
      f.size = s.cache.templates.keys.length ∧ f.size ≤ f.capacity ∧ f.capacity = capacity ∧
      (history = [] → f.hitRate = .zero) ∧
      (history ≠ [] → ∃ m : Magnitude, f.hitRate = .num false m ∧
        m.IsNearest (f.hits * Magnitude.unitsPerOne) (f.hits + f.misses)) := by
  intro s history capacity
  have hstart : (Session.start settings).cache.Follows K [] := CompileCache.follows_empty K _
  obtain ⟨hfollows, hcapacity⟩ := Session.follows_after hstart rs
  replace hfollows : s.cache.Follows K history := hfollows
  replace hcapacity : s.cache.templates.capacity = capacity := hcapacity
  have hsettings : s.settings = settings := (Session.start settings).settings_after K rs
  have hkeys : s.cache.templates.keys = (usesOf K history).eraseDups.take capacity :=
    hcapacity ▸ hfollows.recent
  refine ⟨Settings.cacheCapacity_pos henv, hkeys, ?_, s.cache.figures, rfl, ?_, rfl, rfl,
    hfollows.counted, ?_, ?_, hcapacity, ?_, ?_⟩
  · intro r k hbuilds
    rw [← hsettings] at hbuilds
    obtain ⟨-, -, hhit, hmiss, hfail⟩ := hfollows.construct k
    rw [Session.cache_answer_of_builds K hbuilds, ← hcapacity]
    exact ⟨hhit, hmiss, hfail⟩
  · show ({ s with cache := .empty s.cache.templates.capacity }, _) = _
    rw [hcapacity]
    rfl
  · exact (List.length_map _).symm
  · show s.cache.templates.size ≤ s.cache.templates.capacity
    have hsize : s.cache.templates.size = s.cache.templates.keys.length := (List.length_map _).symm
    rw [hsize, hkeys, hcapacity]
    exact List.length_take_le _ _
  · intro hnil
    refine s.cache.hitRate_eq.1 ?_
    rw [hfollows.counted, hnil]
    rfl
  · intro hne
    refine s.cache.hitRate_eq.2 ?_
    rw [hfollows.counted]
    exact fun hlength => hne (List.length_eq_zero_iff.mp hlength)

/-- One formula is found, a text that does not compile is not kept, and another formula takes the
only place. -/
theorem cache_after_start_single :
    let rs : List Request := [.new "p" "1+x" none, .attempt "q" "2*" none,
      .new "q" "1+x" (some true), .attempt "p" "x" (some false)]
    let s := (Session.start ⟨true, 1⟩).after .standard rs
    Settings.ofEnvironment [("RPN_EXPR_COMPILE_CACHE_MAX", "0")] = .ok ⟨true, 1⟩ ∧
      s.cache.templates.keys = [("x", false)] ∧ s.cache.hits = 1 ∧ s.cache.misses = 3 ∧
      (s.answer .standard (.new "r" "1+x" none)).1.cache.misses = 4 ∧
      (s.answer .standard (.attempt "p" "2*" none)).1.cache
        = { s.cache with misses := s.cache.misses + 1 } ∧
      ∃ m : Magnitude, s.cache.figures.hitRate = .num false m ∧
        m.IsNearest (1 * Magnitude.unitsPerOne) 4 := by
  intro rs s
  have henv : Settings.ofEnvironment [("RPN_EXPR_COMPILE_CACHE_MAX", "0")] = .ok ⟨true, 1⟩ := rfl
  obtain ⟨-, hkeys, hanswer, f, hfigures, -, hhits, hmisses, -, -, -, -, -, hrate⟩ :=
    cache_after_start .standard henv rs
  have hhistory : Settings.history ⟨true, 1⟩ rs
      = [("x", false), ("1+x", true), ("2*", true), ("1+x", true)] := rfl
  have hcounts : s.cache.hits = 1 ∧ s.cache.misses = 3 := by decide +kernel
  have hheld : ¬IsHeld .standard 1 (Settings.history ⟨true, 1⟩ rs) ("1+x", true) := by
    unfold IsHeld
    decide +kernel
  obtain ⟨-, hmiss, -⟩ := hanswer (.new "r" "1+x" none) ("1+x", true) rfl
  obtain ⟨-, -, hfail⟩ := hanswer (.attempt "p" "2*" none) ("2*", true) rfl
  have hf : f = s.cache.figures := by
    have hfigures' : s.answer .standard .figures = (s, .figures s.cache.figures) := rfl
    exact Answer.figures.inj (Prod.mk.inj (hfigures.symm.trans hfigures')).2
  obtain ⟨m, hm, hnearest⟩ := hrate (by rw [hhistory]; exact List.cons_ne_nil _ _)
  rw [hhits, hmisses, hcounts.1, hcounts.2] at hnearest
  refine ⟨henv, ?_, hcounts.1, hcounts.2, ?_, hfail (by decide +kernel), m, hf ▸ hm, hnearest⟩
  · rw [hkeys, hhistory]
    decide +kernel
  · rw [(hmiss hheld).2, hcounts.2]

end Formula
