import Formula.Proofs.Session.Bare
import Formula.Proofs.Session.Cache
import Formula.Session.Basic

/-!
# Expressions that share a cache

All expressions of a session come from one cache. Nevertheless none of them can be told from one
that was compiled for itself and has variables of its own. `BareSession` is a session in which that
is so by definition: it has no cache, and binds names to expressions without slots. It gives the
same answers, apart from the figures of the cache (`answerAll_start`).

`Session.bare` forgets the cache and the slots. Each request leads from a session to another that
looks the same as what the request makes of the bare one (`Sound.answer`), as long as the cache is
faithful and all expressions are those of texts.
-/

namespace Formula

/-! ## Sessions without a cache -/

/-- Expressions by name, and whether they are folded by default. -/
structure BareSession where
  foldByDefault : Bool
  bound : String → Option BareExpression

namespace BareSession

def start (foldByDefault : Bool) : BareSession := ⟨foldByDefault, fun _ => none⟩

def bind (s : BareSession) (id : String) (e : BareExpression) : BareSession :=
  { s with bound := Function.update s.bound id (some e) }

/-- Compiles a text and binds it, if it compiles. -/
def construct (s : BareSession) (K : Kernels) (id text : String) (fold : Option Bool) :
    BareSession × Option CompileError :=
  match BareExpression.ofText K (fold.getD s.foldByDefault) text with
  | .ok e => (s.bind id e, none)
  | .error e => (s, some e)

def withBound (s : BareSession) (id : String)
    (f : BareExpression → BareSession × Option Answer) : BareSession × Option Answer :=
  match s.bound id with
  | some e => f e
  | none => (s, some (.failed (.unbound id)))

def ask (s : BareSession) (id : String) (f : BareExpression → Answer) :
    BareSession × Option Answer :=
  s.withBound id fun e => (s, some (f e))

/-- Answers one request. There are no figures of a cache. -/
def answer (s : BareSession) (K : Kernels) : Request → BareSession × Option Answer
  | .new id text fold =>
    match s.construct K id text fold with
    | (s, none) => (s, some .constructed)
    | (s, some e) => (s, some (.failed (.compile e)))
  | .attempt id text fold =>
    let (s, error) := s.construct K id text fold
    (s, some (.attempted error))
  | .set id name v => s.withBound id fun e => (s.bind id (e.set name v), some .done)
  | .get id name => s.ask id fun e =>
    match e.lookup name with
    | some v => .number v
    | none => .failed (.unknown ⟨name⟩)
  | .lookup id name => s.ask id fun e => .maybeNumber (e.lookup name)
  | .eval id => s.ask id fun e => Session.ofRun (e.eval K)
  | .call id bindings => s.withBound id fun e =>
    match bindKeywords Expression.callMethod bindings with
    | .ok bindings =>
      let e := e.setAll bindings
      (s.bind id e, some (Session.ofRun (e.eval K)))
    | .error clash => (s, some (.failed (.receiver clash)))
  | .batch id columns => s.ask id fun e =>
    match bindKeywords Expression.batchMethod columns with
    | .ok columns => Session.ofBatch (e.evalBatch K columns)
    | .error clash => .failed (.receiver clash)
  | .freeVariables id => s.ask id fun e => .names e.freeVariables
  | .variables id => s.ask id fun e => .bindings e.entries
  | .source id => s.ask id fun e => .text e.source
  | .text id => s.ask id fun e => .text ("Expression(" ++ Text.quoted e.source ++ ")")
  | .figures | .reset => (s, none)
  | .foldingDefault => (s, some (.flag s.foldByDefault))

/-- Answers requests in order. -/
def answerAll (K : Kernels) : BareSession → List Request → List (Option Answer)
  | _, [] => []
  | s, r :: rest =>
    let (s, a) := s.answer K r
    a :: s.answerAll K rest

end BareSession

/-- An answer, unless it is the figures of the cache. -/
def Answer.withoutFigures : Answer → Option Answer
  | .figures _ => none
  | a => some a

/-- The name whose expression a request may change. -/
def Request.changes : Request → Option String
  | .new id _ _ | .attempt id _ _ | .set id _ _ | .call id _ => some id
  | .get _ _ | .lookup _ _ | .eval _ | .batch _ _ | .freeVariables _ | .variables _ | .source _
  | .text _ | .figures | .reset | .foldingDefault => none

namespace Session

/-- What requests make of a session. -/
def after (s : Session) (K : Kernels) (rs : List Request) : Session :=
  rs.foldl (fun s r => (s.answer K r).1) s

/-! ## Forgetting the cache and the slots -/

def bare (s : Session) : BareSession :=
  ⟨s.settings.foldByDefault, fun id => (s.bound.lookup id).map Expression.bare⟩

theorem lookup_bind (s : Session) (id : String) (e : Expression) (other : String) :
    (s.bind id e).bound.lookup other = if other = id then some e else s.bound.lookup other :=
  lookup_cons_filter s.bound id e other

theorem bare_bind (s : Session) (id : String) (e : Expression) :
    (s.bind id e).bare = s.bare.bind id e.bare := by
  have hbound : (s.bind id e).bare.bound = Function.update s.bare.bound id (some e.bare) := by
    funext other
    show ((s.bind id e).bound.lookup other).map Expression.bare = _
    rw [lookup_bind, Function.update_apply]
    split <;> rfl
  exact congrArg (BareSession.mk s.settings.foldByDefault) hbound

/-- The cache is faithful, and all expressions are those of texts. -/
structure Sound (s : Session) (K : Kernels) : Prop where
  cache : s.cache.Faithful K
  bound : ∀ id e, s.bound.lookup id = some e → e.Compiled

variable {s : Session} {K : Kernels}

theorem sound_start (K : Kernels) (settings : Settings) : (start settings).Sound K where
  cache := CompileCache.faithful_empty K settings.cacheCapacity
  bound := by
    intro id e h
    cases h

theorem Sound.bind (h : s.Sound K) (id : String) {e : Expression} (he : e.Compiled) :
    (s.bind id e).Sound K where
  cache := h.cache
  bound := by
    intro other e' hlookup
    rw [lookup_bind] at hlookup
    split at hlookup
    · obtain rfl := Option.some.inj hlookup
      exact he
    · exact h.bound other e' hlookup

/-! ## One request -/

/-- A session and its answer look like what a bare session comes to and answers. -/
def LooksLike (K : Kernels) (x : Session × Answer) (y : BareSession × Option Answer) : Prop :=
  x.1.Sound K ∧ y = (x.1.bare, x.2.withoutFigures)

/-- Building an expression through the cache is compiling its text. -/
theorem Sound.construct (h : s.Sound K) (id text : String) (fold : Option Bool) :
    (s.construct K id text fold).1.Sound K ∧
      s.bare.construct K id text fold
        = ((s.construct K id text fold).1.bare, (s.construct K id text fold).2) := by
  obtain ⟨hcache, hbuilt⟩ := h.cache.construct text (s.settings.fold fold)
  unfold BareSession.construct Session.construct
  rw [show fold.getD s.bare.foldByDefault = s.settings.fold fold from rfl,
    ← Expression.bare_ofText, ← hbuilt]
  cases hc : s.cache.construct K text (s.settings.fold fold) with
  | mk cache built =>
    rw [hc] at hcache hbuilt
    have hs : Sound { s with cache } K := ⟨hcache, h.bound⟩
    cases built with
    | ok e => exact ⟨hs.bind id (.ofText hbuilt.symm), by rw [bare_bind]; rfl⟩
    | error e => exact ⟨hs, rfl⟩

theorem Sound.withBound (h : s.Sound K) (id : String) {f : Expression → Session × Answer}
    {g : BareExpression → BareSession × Option Answer}
    (hf : ∀ e : Expression, e.Compiled → LooksLike K (f e) (g e.bare)) :
    LooksLike K (s.withBound id f) (s.bare.withBound id g) := by
  unfold Session.withBound BareSession.withBound
  rw [show s.bare.bound id = (s.bound.lookup id).map Expression.bare from rfl]
  cases hlookup : s.bound.lookup id with
  | some e => exact hf e (h.bound id e hlookup)
  | none => exact ⟨h, rfl⟩

theorem Sound.ask (h : s.Sound K) (id : String) {f : Expression → Answer}
    {g : BareExpression → Answer}
    (hf : ∀ e : Expression, e.Compiled → (f e).withoutFigures = some (g e.bare)) :
    LooksLike K (s.ask id f) (s.bare.ask id g) := by
  refine h.withBound id ?_
  intro e he
  exact ⟨h, by rw [hf e he]⟩

theorem withoutFigures_ofRun (r : Except RunError Double) :
    (ofRun r).withoutFigures = some (ofRun r) := by
  cases r <;> rfl

theorem withoutFigures_ofBatch (r : Except RunError (Tensor Double)) :
    (ofBatch r).withoutFigures = some (ofBatch r) := by
  cases r <;> rfl

/-- **A request has the same effect and the same answer without cache and slots.** -/
theorem Sound.answer (h : s.Sound K) (r : Request) :
    LooksLike K (s.answer K r) (s.bare.answer K r) := by
  cases r with
  | new id text fold =>
    obtain ⟨hs, heq⟩ := h.construct id text fold
    rw [BareSession.answer, Session.answer, heq]
    cases hc : s.construct K id text fold with
    | mk s' error =>
      rw [hc] at hs
      cases error <;> exact ⟨hs, rfl⟩
  | attempt id text fold =>
    obtain ⟨hs, heq⟩ := h.construct id text fold
    rw [BareSession.answer, heq]
    exact ⟨hs, rfl⟩
  | set id name v =>
    refine h.withBound id ?_
    intro e he
    -- to set one name is to set a list of one
    exact ⟨h.bind id (he.setAll [(name, v)]), by rw [bare_bind, e.bare_set]; rfl⟩
  | get id name =>
    refine h.ask id ?_
    intro e _
    rw [e.lookup_bare]
    unfold Expression.value Table.value Expression.lookup
    cases e.table.lookup name <;> rfl
  | lookup id name =>
    refine h.ask id ?_
    intro e _
    rw [e.lookup_bare]
    rfl
  | eval id =>
    refine h.ask id ?_
    intro e he
    rw [withoutFigures_ofRun, he.eval_bare]
  | call id bindings =>
    refine h.withBound id ?_
    intro e he
    unfold Expression.call
    cases bindKeywords Expression.callMethod bindings with
    | error clash => exact ⟨h, rfl⟩
    | ok bindings =>
      -- what stays bound is the expression as it is evaluated, with the bindings set
      have he' : (e.setAll bindings).Compiled := he.setAll bindings
      refine ⟨h.bind id he', ?_⟩
      show (s.bare.bind id (e.bare.setAll bindings),
          some (ofRun ((e.bare.setAll bindings).eval K)))
        = ((s.bind id (e.setAll bindings)).bare,
            (ofRun ((e.setAll bindings).eval K)).withoutFigures)
      rw [bare_bind, withoutFigures_ofRun, ← e.bare_setAll, he'.eval_bare]
  | batch id columns =>
    refine h.ask id ?_
    intro e he
    unfold Expression.callBatch
    cases bindKeywords Expression.batchMethod columns with
    | error clash => rfl
    | ok columns =>
      show (ofBatch (e.evalBatch K columns)).withoutFigures
        = some (ofBatch (e.bare.evalBatch K columns))
      rw [withoutFigures_ofBatch, he.evalBatch_bare]
  | freeVariables id => exact h.ask id fun _ _ => rfl
  | «variables» id =>
    refine h.ask id ?_
    intro e _
    rw [e.entries_bare]
    rfl
  | source id => exact h.ask id fun _ _ => rfl
  | text id => exact h.ask id fun _ _ => rfl
  | figures => exact ⟨h, rfl⟩
  | reset => exact ⟨⟨CompileCache.faithful_empty K _, h.bound⟩, rfl⟩
  | foldingDefault => exact ⟨h, rfl⟩

/-! ## All requests -/

/-- **Requests have the same answers without cache and slots.** -/
theorem Sound.answerAll (h : s.Sound K) (rs : List Request) :
    (s.answerAll K rs).map Answer.withoutFigures = s.bare.answerAll K rs := by
  induction rs generalizing s with
  | nil => rfl
  | cons r rs ih =>
    obtain ⟨hs, heq⟩ := h.answer r
    rw [Session.answerAll, BareSession.answerAll, heq, List.map_cons, ih hs]

theorem Sound.after (h : s.Sound K) (rs : List Request) : (s.after K rs).Sound K := by
  induction rs generalizing s with
  | nil => exact h
  | cons r rs ih => exact ih (h.answer r).1

/-! ## What a request leaves alone -/

theorem bound_construct (s : Session) (K : Kernels) (id text : String) (fold : Option Bool)
    {other : String} (h : other ≠ id) :
    (s.construct K id text fold).1.bound.lookup other = s.bound.lookup other := by
  unfold construct
  cases s.cache.construct K text (s.settings.fold fold) with
  | mk cache built =>
    cases built with
    | ok e => exact (lookup_bind _ id e other).trans (if_neg h)
    | error e => rfl

theorem bound_withBound (s : Session) (id : String) {f : Expression → Session × Answer}
    {other : String} (hf : ∀ e, (f e).1.bound.lookup other = s.bound.lookup other) :
    (s.withBound id f).1.bound.lookup other = s.bound.lookup other := by
  unfold withBound
  cases s.bound.lookup id with
  | some e => exact hf e
  | none => rfl

theorem fst_ask (s : Session) (id : String) (f : Expression → Answer) : (s.ask id f).1 = s := by
  unfold ask withBound
  cases s.bound.lookup id <;> rfl

/-- To ask for something is to change nothing. -/
theorem fst_answer_of_changes_eq_none (s : Session) (K : Kernels) {r : Request}
    (h : r.changes = none) (hreset : r ≠ .reset) : (s.answer K r).1 = s := by
  cases r with
  | new | attempt | set | call => cases h
  | get | lookup | eval | batch | freeVariables | «variables» | source | text =>
    exact s.fst_ask _ _
  | figures | foldingDefault => rfl
  | reset => exact absurd rfl hreset

/-- A call with a keyword for the receiver changes nothing. -/
theorem fst_answer_call_of_receiver (s : Session) (K : Kernels) (id : String)
    {bindings : List (String × Double)} (h : receiver ∈ bindings.map Prod.fst) :
    (s.answer K (.call id bindings)).1 = s := by
  have hrefused : ∀ e : Expression, e.call K bindings = .error ⟨Expression.callMethod⟩ := by
    intro e
    rw [Expression.call, bindKeywords_of_mem h]
    rfl
  simp only [answer, withBound, hrefused]
  cases s.bound.lookup id <;> rfl

/-- **A request changes no expression but the one under its name.** -/
theorem bound_answer (s : Session) (K : Kernels) (r : Request) {id : String}
    (h : r.changes ≠ some id) : (s.answer K r).1.bound.lookup id = s.bound.lookup id := by
  have hne : ∀ other, r.changes = some other → id ≠ other := by
    rintro other hr rfl
    exact h hr
  cases r with
  | new other text fold =>
    rw [← s.bound_construct K other text fold (hne other rfl), answer]
    cases s.construct K other text fold with
    | mk s' error => cases error <;> rfl
  | attempt other text fold =>
    exact s.bound_construct K other text fold (hne other rfl)
  | set other name v =>
    refine s.bound_withBound other fun e => ?_
    exact (s.lookup_bind other _ id).trans (if_neg (hne other rfl))
  | call other bindings =>
    refine s.bound_withBound other fun e => ?_
    cases e.call K bindings with
    | ok r => exact (s.lookup_bind other r.1 id).trans (if_neg (hne other rfl))
    | error clash => rfl
  | get | lookup | eval | batch | freeVariables | «variables» | source | text =>
    exact congrArg (fun s' : Session => s'.bound.lookup id) (s.fst_ask _ _)
  | figures | reset | foldingDefault => rfl

end Session

/--
**The cache of a session does not show.**

Whatever is asked of a session, and however many formulas its cache keeps, the answers are those of
a session in which each expression is compiled for itself and has values of its own by name. In both
a keyword for the receiver is refused. After any requests, the cache builds what a text compiles to,
whatever was set before; a request that builds, sets or calls an expression leaves all others alone,
and any other request but a reset of the cache changes nothing, nor does a call that is refused; and
an expression may be evaluated on a stack with anything on it.
-/
theorem answerAll_start (K : Kernels) (settings : Settings) (rs : List Request) :
    ((Session.start settings).answerAll K rs).map Answer.withoutFigures
        = (BareSession.start settings.foldByDefault).answerAll K rs ∧
      let s := (Session.start settings).after K rs
      (∀ text fold, (s.cache.construct K text fold).2 = Expression.ofText K fold text) ∧
      (∀ r id, r.changes ≠ some id → (s.answer K r).1.bound.lookup id = s.bound.lookup id) ∧
      (∀ r, r.changes = none → r ≠ .reset → (s.answer K r).1 = s) ∧
      (∀ id bindings, receiver ∈ bindings.map Prod.fst →
        (s.answer K (.call id bindings)).1 = s) ∧
      ∀ id e, s.bound.lookup id = some e → ∀ stack,
        K.scalar.run (slotsOf e.table.values) e.program stack = ⟨e.eval K, stack⟩ := by
  have hstart := Session.sound_start K settings
  have hafter := hstart.after rs
  refine ⟨hstart.answerAll rs, ?_, ?_, ?_, ?_, ?_⟩
  · intro text fold
    exact (hafter.cache.construct text fold).2
  · intro r id h
    exact Session.bound_answer _ K r h
  · intro r h hreset
    exact Session.fst_answer_of_changes_eq_none _ K h hreset
  · intro id bindings h
    exact Session.fst_answer_call_of_receiver _ K id h
  · intro id e h stack
    exact (hafter.bound id e h).run_eq K stack

/-- Two expressions of one text, of which the first has taken the constant for a variable; the cache
keeps a single formula. -/
theorem answerAll_start_shared_text :
    let s := (Session.start ⟨true, 1⟩).after .standard
      [.new "p" "e*x" none, .set "p" "e" .zero, .new "q" "e*x" none, .call "q" [("x", .one)]]
    s.cache.hits = 1 ∧ (s.bound.lookup "q").bind (·.lookup "e") = Table.constants.lookup "e" ∧
      (s.answer .standard (.set "p" "x" .nan)).1.bound.lookup "q" = s.bound.lookup "q" ∧
      (s.answer .standard (.batch "p" [("e", .scalar .one)])).1 = s ∧
      (s.answer .standard (.call "p" [("x", .one), ("self", .one)])).1 = s ∧
      ∃ e, s.bound.lookup "q" = some e ∧ ∀ stack,
        Kernels.standard.scalar.run (slotsOf e.table.values) e.program stack
          = ⟨e.eval .standard, stack⟩ := by
  obtain ⟨-, -, hother, hread, hcall, hrun⟩ := answerAll_start .standard ⟨true, 1⟩
    [.new "p" "e*x" none, .set "p" "e" .zero, .new "q" "e*x" none, .call "q" [("x", .one)]]
  refine ⟨by decide +kernel, by decide +kernel, hother _ "q" (by decide), hread _ rfl nofun,
    hcall "p" _ (by decide), ?_⟩
  obtain ⟨e, he⟩ := Option.isSome_iff_exists.mp (show (((Session.start ⟨true, 1⟩).after .standard
    [.new "p" "e*x" none, .set "p" "e" .zero, .new "q" "e*x" none,
      .call "q" [("x", .one)]]).bound.lookup "q").isSome = true by decide +kernel)
  exact ⟨e, he, hrun "q" e he⟩

/-- A variable may have the name of the receiver. It can be set, and then it has the value that it
was set to, but it cannot be given by keyword. -/
theorem call_receiver_refused :
    (∃ e, BareExpression.ofText .standard true "self+1" = .ok e ∧
      (e.setAll [("self", .ofNat 2)]).eval .standard = .ok (.ofNat 3)) ∧
    (Session.start .default).answerAll .standard
        [.new "p" "self+1" none, .call "p" [("self", .ofNat 2)]]
      = [.constructed, .failed (.receiver ⟨"Expression.__call__"⟩)] := by
  constructor
  · have hprogram : (compile ⟨.standard, true⟩ "self+1" .withConstants).program
        = .ok [.load 7 "self", .push .one, .apply (.binary .add)] := by
      decide +kernel
    refine ⟨_, by rw [BareExpression.ofText, hprogram]; rfl, ?_⟩
    decide +kernel
  · cases hconstruct : (Session.start .default).construct .standard "p" "self+1" none with
    | mk s error =>
      have hnone : ((Session.start .default).construct .standard "p" "self+1" none).2 = none := by
        decide +kernel
      have hbound : (((Session.start .default).construct .standard "p" "self+1" none).1.bound.lookup
          "p").isSome = true := by
        decide +kernel
      rw [hconstruct] at hnone hbound
      obtain rfl : error = none := hnone
      obtain ⟨e, he⟩ := Option.isSome_iff_exists.mp hbound
      simp only [Session.answerAll, Session.answer, hconstruct, Session.withBound, he,
        Expression.call, bindKeywords_of_mem (show receiver ∈ [("self", Double.ofNat 2)].map
          Prod.fst from List.mem_singleton_self _)]
      rfl

end Formula
