import Formula.Proofs.Session.History

/-!
# Building an expression

To build an expression either succeeds or leaves nothing behind. Which of the two it is depends on
the text and the folding alone: not on the session, so a text that does not compile fails again with
the same error whenever it is tried.
-/

namespace Formula

/-- A text that does not compile is not found, and nothing is stored for it. -/
theorem CompileCache.Faithful.construct_of_error {c : CompileCache} {K : Kernels}
    (h : c.Faithful K) {text : String} {fold : Bool} {e : CompileError}
    (he : Expression.ofText K fold text = .error e) :
    c.construct K text fold = ({ c with misses := c.misses + 1 }, .error e) := by
  have ht : Template.ofText K fold text = .error e := by
    unfold Expression.ofText at he
    cases ht : Template.ofText K fold text with
    | ok t => rw [ht] at he; cases he
    | error e' => rw [ht] at he; cases he; rfl
  unfold CompileCache.construct
  cases hfind : c.templates.find? (text, fold) with
  | some t =>
    have hok := h _ (Cache.mem_entries_of_find? hfind)
    rw [ht] at hok
    cases hok
  | none => rw [ht]

namespace Session

variable {s : Session} {K : Kernels}

/-- The session after one more miss. -/
def missed (s : Session) : Session :=
  { s with cache := { s.cache with misses := s.cache.misses + 1 } }

/-- A text that does not compile is a miss and an error. -/
theorem Sound.construct_of_error (h : s.Sound K) (id : String) {text : String}
    {fold : Option Bool} {e : CompileError}
    (he : Expression.ofText K (s.settings.fold fold) text = .error e) :
    s.construct K id text fold = (s.missed, some e) := by
  unfold Session.construct
  rw [h.cache.construct_of_error he]
  rfl

/-- A text that compiles binds its expression. -/
theorem Sound.construct_of_ok (h : s.Sound K) (id : String) {text : String}
    {fold : Option Bool} {e : Expression}
    (he : Expression.ofText K (s.settings.fold fold) text = .ok e) :
    ∃ s', s.construct K id text fold = (s', none) ∧ s'.bound.lookup id = some e := by
  unfold Session.construct
  have hbuilt := (h.cache.construct text (s.settings.fold fold)).2
  cases hc : s.cache.construct K text (s.settings.fold fold) with
  | mk cache built =>
    obtain rfl : built = .ok e := by rw [hc] at hbuilt; exact hbuilt.trans he
    exact ⟨_, rfl, (lookup_bind _ id e id).trans (if_pos rfl)⟩

/-- Both ways to build an expression answer what the construction comes to. -/
theorem answer_new (s : Session) (K : Kernels) (id text : String) (fold : Option Bool) :
    s.answer K (.new id text fold)
      = ((s.construct K id text fold).1,
        match (s.construct K id text fold).2 with
        | none => .constructed
        | some e => .failed (.compile e)) := by
  rw [answer]
  cases s.construct K id text fold with
  | mk s' error => cases error <;> rfl

theorem answer_attempt (s : Session) (K : Kernels) (id text : String) (fold : Option Bool) :
    s.answer K (.attempt id text fold)
      = ((s.construct K id text fold).1, .attempted (s.construct K id text fold).2) := rfl

/-- **A text that does not compile leaves everything as it is**, apart from the misses. -/
theorem Sound.answer_of_error (h : s.Sound K) (id : String) {text : String} {fold : Option Bool}
    {e : CompileError} (he : Expression.ofText K (s.settings.fold fold) text = .error e) :
    s.answer K (.new id text fold) = (s.missed, .failed (.compile e)) ∧
      s.answer K (.attempt id text fold) = (s.missed, .attempted (some e)) := by
  rw [answer_new, answer_attempt, h.construct_of_error id he]
  exact ⟨rfl, rfl⟩

/-- **A text that compiles is bound**, by either request in the same way. -/
theorem Sound.answer_of_ok (h : s.Sound K) (id : String) {text : String} {fold : Option Bool}
    {e : Expression} (he : Expression.ofText K (s.settings.fold fold) text = .ok e) :
    ∃ s', s.answer K (.new id text fold) = (s', .constructed) ∧
      s.answer K (.attempt id text fold) = (s', .attempted none) ∧
      s'.bound.lookup id = some e := by
  obtain ⟨s', hconstruct, hbound⟩ := h.construct_of_ok id he
  rw [answer_new, answer_attempt, hconstruct]
  exact ⟨s', rfl, rfl, hbound⟩

end Session

/--
**A construction that fails leaves no trace but a miss.**

Whatever was asked of the session before, a text that does not compile leaves the expressions, their
variables and the formulas of the cache in their order as they were. Both requests tell the same
error, and they tell it again whatever is asked in between. Where one of them succeeds the other one
would too, with the same session as the outcome, in which the name is bound to what the text
compiles to.
-/
theorem answer_construct (K : Kernels) (settings : Settings) (rs : List Request) :
    let s := (Session.start settings).after K rs
    (∀ text fold e, Expression.ofText K (settings.fold fold) text = .error e →
      (∀ id,
        let s' := { s with cache := { s.cache with misses := s.cache.misses + 1 } }
        s.answer K (.new id text fold) = (s', .failed (.compile e)) ∧
          s.answer K (.attempt id text fold) = (s', .attempted (some e))) ∧
      ∀ later id,
        ((s.after K later).answer K (.new id text fold)).2 = .failed (.compile e) ∧
          ((s.after K later).answer K (.attempt id text fold)).2 = .attempted (some e)) ∧
    ∀ id text fold,
      ((s.answer K (.attempt id text fold)).2 = .attempted none ↔
        (s.answer K (.new id text fold)).2 = .constructed) ∧
      ((s.answer K (.attempt id text fold)).2 = .attempted none →
        (s.answer K (.attempt id text fold)).1 = (s.answer K (.new id text fold)).1 ∧
          ∃ e, Expression.ofText K (settings.fold fold) text = .ok e ∧
            (s.answer K (.attempt id text fold)).1.bound.lookup id = some e) := by
  intro s
  have hsound : s.Sound K := (Session.sound_start K settings).after rs
  have hsettings : s.settings = settings := (Session.start settings).settings_after K rs
  refine ⟨?_, ?_⟩
  · intro text fold e he
    refine ⟨fun id => hsound.answer_of_error id (hsettings ▸ he), ?_⟩
    intro later id
    have hlater : (s.after K later).settings = settings :=
      (s.settings_after K later).trans hsettings
    obtain ⟨hnew, hattempt⟩ := (hsound.after later).answer_of_error id (hlater ▸ he)
    exact ⟨congrArg Prod.snd hnew, congrArg Prod.snd hattempt⟩
  · intro id text fold
    cases he : Expression.ofText K (settings.fold fold) text with
    | error e =>
      obtain ⟨hnew, hattempt⟩ := hsound.answer_of_error id (hsettings ▸ he)
      rw [hnew, hattempt]
      exact ⟨⟨nofun, nofun⟩, nofun⟩
    | ok e =>
      obtain ⟨s', hnew, hattempt, hbound⟩ := hsound.answer_of_ok id (hsettings ▸ he)
      rw [hnew, hattempt]
      exact ⟨⟨fun _ => rfl, fun _ => rfl⟩, fun _ => ⟨rfl, e, rfl, hbound⟩⟩

/-- A full cache, from which a text that registers names before it fails drives nothing out. -/
theorem answer_construct_full_cache :
    let s := (Session.start ⟨true, 1⟩).after .standard [.new "p" "x+y" none, .set "p" "x" .one]
    ∃ e, Expression.ofText .standard true "z*(y" = .error e ∧
      s.answer .standard (.new "p" "z*(y" none) = (s.missed, .failed (.compile e)) ∧
      ((s.after .standard [.reset, .new "q" "y" none]).answer .standard
        (.attempt "p" "z*(y" none)).2 = .attempted (some e) ∧
      (s.answer .standard (.attempt "q" "x+y" none)).2 = .attempted none ∧
      (s.answer .standard (.attempt "q" "x+y" none)).1
        = (s.answer .standard (.new "q" "x+y" none)).1 := by
  intro s
  have he : Expression.ofText .standard true "z*(y"
      = .error ⟨.missingCloseBracket, 4, 4, none⟩ := by
    have hprogram : (compile ⟨.standard, true⟩ "z*(y" .withConstants).program
        = .error ⟨.missingCloseBracket, 4, 4, none⟩ := by decide +kernel
    simp only [Expression.ofText, Template.ofText, hprogram]
  obtain ⟨hfail, hagree⟩ :=
    answer_construct .standard ⟨true, 1⟩ [.new "p" "x+y" none, .set "p" "x" .one]
  obtain ⟨hnow, hlater⟩ := hfail "z*(y" none _ he
  have hok : (s.answer .standard (.attempt "q" "x+y" none)).2 = .attempted none :=
    congrArg Answer.attempted
      (show (s.construct .standard "q" "x+y" none).2 = none by decide +kernel)
  exact ⟨_, he, (hnow "p").1, (hlater [.reset, .new "q" "y" none] "p").2, hok,
    ((hagree "q" "x+y" none).2 hok).1⟩

end Formula
