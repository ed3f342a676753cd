import Mathlib.Data.List.Induction
import Formula.Proofs.Table.Values
import Formula.Table.Family

/-!
# Tables and their histories

All answers of a table can be told from the requests that were made, without any table. The names
are those that the table began with and those for which a slot was asked, in this order; the value
of a name is the one that it was given last. A copy takes over both from the table that is copied,
and from then on each of the two has a history of its own. `namesIn` and `valueIn` read a history
in this way, from its latest request back, and `answer_after` says that tables answer accordingly.

`lookup_answer` lists what one request does to the tables, `Follows.answer` is the step along a
history, and `follows_after` the whole of it.
-/

namespace Formula.Table

/-- A name that is not known cannot be set. -/
theorem set_of_not_mem {t : Table} {name : String} (h : name ∉ t.names) (v : Double) :
    t.set name v = t := by
  have hentries : (t.entries.map fun e => (e.1, if e.1 = name then v else e.2)) = t.entries := by
    refine (List.map_congr_left fun e he => ?_).trans (List.map_id t.entries)
    have hne : e.1 ≠ name := fun heq => h (heq ▸ List.mem_map_of_mem he)
    rw [if_neg hne]
    rfl
  simp only [set, hentries]

/-- The requests that change nothing if the table has the given names. -/
def Request.Idle (names : List String) : Request → Prop
  | .slotFor name => name ∈ names
  | .set name _ => name ∉ names
  | .copy _ => False
  | .slot _ | .value _ | .lookup _ | .contains _ | .size | .names | .values | .entries => True

namespace Family

/-- Tables under the given names, with or without the constants. -/
def fresh (ids : List (String × Bool)) : Family :=
  ⟨ids.map fun e => (e.1, if e.2 then withConstants else empty)⟩

/-- What requests make of a family. -/
def after (f : Family) (rs : List (String × Request)) : Family :=
  rs.foldl (fun f r => (f.answer r.1 r.2).1) f

/-! ## Reading a history -/

/-- The names of a table by its history, the latest request first: those it began with, and each
name for which a slot was asked. There are none if there is no table. -/
def namesIn (ids : List (String × Bool)) :
    List (String × Request) → String → Option (List String)
  | [], id => (ids.lookup id).map fun known => if known then constants.map Prod.fst else []
  | (source, r) :: earlier, id =>
    match r with
    | .slotFor name =>
      if source = id then
        (namesIn ids earlier id).map fun names => if name ∈ names then names else names ++ [name]
      else namesIn ids earlier id
    | .copy target =>
      if target = id then (namesIn ids earlier source).or (namesIn ids earlier id)
      else namesIn ids earlier id
    | _ => namesIn ids earlier id

/-- The value of a name by the history of its table: the one that was set last while the name was
known, on this table or on the one it was copied from before the copy. A name that was never set is
NaN, or has the value of its constant. -/
def valueIn (ids : List (String × Bool)) : List (String × Request) → String → String → Double
  | [], id, name =>
    if ids.lookup id = some true then (constants.lookup name).getD .nan else .nan
  | (source, r) :: earlier, id, name =>
    match r with
    | .set word v =>
      if source = id ∧ word = name ∧ name ∈ (namesIn ids earlier id).getD [] then v
      else valueIn ids earlier id name
    | .copy target =>
      if target = id ∧ (namesIn ids earlier source).isSome then valueIn ids earlier source name
      else valueIn ids earlier id name
    | _ => valueIn ids earlier id name

/-! ## One request -/

section

variable {f : Family} {id : String}

theorem lookup_put (f : Family) (id : String) (t : Table) (other : String) :
    (f.put id t).tables.lookup other = if other = id then some t else f.tables.lookup other :=
  lookup_cons_filter f.tables id t other

/-- Without a table nothing happens. -/
theorem answer_of_unbound (h : f.tables.lookup id = none) (r : Request) :
    f.answer id r = (f, .unbound id) := by
  simp only [answer, h]

/-- **What one request does to the tables.** Only three kinds of requests do anything, each to one
table. -/
theorem lookup_answer {t : Table} (h : f.tables.lookup id = some t) (r : Request)
    (other : String) :
    (f.answer id r).1.tables.lookup other = match r with
      | .slotFor name => if other = id then some (t.register name) else f.tables.lookup other
      | .set name v => if other = id then some (t.set name v) else f.tables.lookup other
      | .copy target => if other = target then some t else f.tables.lookup other
      | _ => f.tables.lookup other := by
  simp only [answer, h]
  cases r with
  | slotFor name =>
    show (f.put id (t.slotFor name).2).tables.lookup other = _
    rw [slotFor_eq]
    exact lookup_put ..
  | set name v => exact lookup_put ..
  | copy target => exact lookup_put ..
  | slot | value | lookup | contains | size | names | values | entries => rfl

end

/-! ## All requests -/

/-- The tables are what the history says, the latest request first. -/
structure Follows (f : Family) (ids : List (String × Bool)) (history : List (String × Request)) :
    Prop where
  names (id : String) : (f.tables.lookup id).map Table.names = namesIn ids history id
  value {id : String} {t : Table} (h : f.tables.lookup id = some t) :
    t.valueOf = valueIn ids history id

section

variable {f : Family} {ids : List (String × Bool)} {history : List (String × Request)}

theorem follows_fresh (ids : List (String × Bool)) : (fresh ids).Follows ids [] := by
  have hlookup : ∀ id, (fresh ids).tables.lookup id
      = (ids.lookup id).map fun known => if known then withConstants else empty := by
    intro id
    induction ids with
    | nil => rfl
    | cons e ids ih =>
      show List.lookup id ((e.1, _) :: (fresh ids).tables) = _
      rw [List.lookup_cons, List.lookup_cons, ih]
      cases id == e.1 <;> rfl
  constructor
  · intro id
    rw [hlookup, namesIn, Option.map_map]
    refine congrArg (Option.map · _) (funext fun known => ?_)
    cases known <;> rfl
  · intro id t ht
    rw [hlookup] at ht
    obtain ⟨known, hknown, rfl⟩ := Option.map_eq_some_iff.mp ht
    funext name
    cases known with
    | true => rw [valueIn, if_pos hknown]; rfl
    | false =>
      have hnot : ¬ids.lookup id = some true := by rw [hknown]; decide
      rw [valueIn, if_neg hnot]
      rfl

namespace Follows

theorem names_of_some (h : f.Follows ids history) {id : String} {t : Table}
    (ht : f.tables.lookup id = some t) : namesIn ids history id = some t.names := by
  rw [← h.names, ht]
  rfl

/-- What one more request does to the names. -/
theorem names_answer (h : f.Follows ids history) {id : String} {t : Table}
    (ht : f.tables.lookup id = some t) (r : Request) (other : String) :
    ((f.answer id r).1.tables.lookup other).map Table.names
      = namesIn ids ((id, r) :: history) other := by
  have hnames := h.names_of_some ht
  rw [lookup_answer ht r]
  cases r with
  | slotFor name =>
    by_cases hother : other = id
    · subst hother
      simp only [namesIn, if_true, hnames, Option.map_some, names_register]
    · simp only [namesIn, if_neg hother, if_neg (Ne.symm hother), h.names]
  | set name v =>
    by_cases hother : other = id
    · subst hother
      simp only [namesIn, if_true, hnames, Option.map_some, names_set]
    · simp only [namesIn, if_neg hother, h.names]
  | copy target =>
    by_cases hother : other = target
    · subst hother
      simp only [namesIn, if_true, hnames, Option.map_some, Option.some_or]
    · simp only [namesIn, if_neg hother, if_neg (Ne.symm hother), h.names]
  | slot | value | lookup | contains | size | names | values | entries => exact h.names other

/-- What one more request does to the values. -/
theorem value_answer (h : f.Follows ids history) {id : String} {t : Table}
    (ht : f.tables.lookup id = some t) (r : Request) {other : String} {u : Table}
    (hu : (f.answer id r).1.tables.lookup other = some u) :
    u.valueOf = valueIn ids ((id, r) :: history) other := by
  have hnames := h.names_of_some ht
  rw [lookup_answer ht r] at hu
  funext name
  cases r with
  | slotFor word =>
    by_cases hother : other = id
    · subst hother
      simp only [if_true, Option.some.injEq] at hu
      rw [← hu, valueOf_register, h.value ht]
      rfl
    · simp only [if_neg hother] at hu
      exact congrFun (h.value hu) name
  | set word v =>
    by_cases hother : other = id
    · subst hother
      simp only [if_true, Option.some.injEq] at hu
      rw [← hu, valueOf_set, h.value ht]
      simp only [valueIn, hnames, Option.getD_some, true_and]
      by_cases hword : word = name
      · subst hword
        by_cases hmem : word ∈ t.names <;> simp [hmem]
      · by_cases hmem : word ∈ t.names <;> simp [hmem, hword, Ne.symm hword]
    · simp only [if_neg hother] at hu
      have hsource : ¬(id = other ∧ word = name ∧ name ∈ (namesIn ids history other).getD []) :=
        fun hn => hother hn.1.symm
      rw [valueIn, if_neg hsource, h.value hu]
  | copy target =>
    by_cases hother : other = target
    · subst hother
      simp only [if_true, Option.some.injEq] at hu
      have hsource : other = other ∧ (namesIn ids history id).isSome := ⟨rfl, by rw [hnames]; rfl⟩
      rw [← hu, valueIn, if_pos hsource, h.value ht]
    · simp only [if_neg hother] at hu
      have htarget : ¬(target = other ∧ (namesIn ids history id).isSome) :=
        fun hn => hother hn.1.symm
      rw [valueIn, if_neg htarget, h.value hu]
  | slot | value | lookup | contains | size | names | values | entries =>
    exact congrFun (h.value hu) name

/-- A request to a table that there is not leaves no trace in the history. -/
theorem namesIn_cons_of_unbound {id : String} (hid : namesIn ids history id = none) (r : Request)
    (other : String) : namesIn ids ((id, r) :: history) other = namesIn ids history other := by
  cases r with
  | slotFor name =>
    rw [namesIn]
    split
    · next h => rw [← h, hid]; rfl
    · rfl
  | copy target => rw [namesIn, hid, Option.none_or, ite_self]
  | set | slot | value | lookup | contains | size | names | values | entries => rfl

theorem valueIn_cons_of_unbound {id : String} (hid : namesIn ids history id = none) (r : Request)
    (other : String) : valueIn ids ((id, r) :: history) other = valueIn ids history other := by
  funext name
  cases r with
  | set word v =>
    rw [valueIn]
    refine if_neg ?_
    rintro ⟨rfl, -, hmem⟩
    rw [hid] at hmem
    exact List.not_mem_nil hmem
  | copy target =>
    rw [valueIn]
    refine if_neg ?_
    rw [hid]
    rintro ⟨-, ⟨⟩⟩
  | slotFor | slot | value | lookup | contains | size | names | values | entries => rfl

/-- **One more request continues the history.** -/
theorem answer (h : f.Follows ids history) (id : String) (r : Request) :
    (f.answer id r).1.Follows ids ((id, r) :: history) := by
  cases ht : f.tables.lookup id with
  | some t => exact ⟨h.names_answer ht r, h.value_answer ht r⟩
  | none =>
    have hid : namesIn ids history id = none := by rw [← h.names, ht]; rfl
    rw [answer_of_unbound ht]
    constructor
    · intro other
      rw [h.names, namesIn_cons_of_unbound hid]
    · intro other t ht
      rw [h.value ht, valueIn_cons_of_unbound hid]

end Follows

theorem after_append (f : Family) (rs rs' : List (String × Request)) :
    f.after (rs ++ rs') = (f.after rs).after rs' := List.foldl_append

/-- **Tables follow the history of all requests to them.** -/
theorem follows_after (ids : List (String × Bool)) (rs : List (String × Request)) :
    ((fresh ids).after rs).Follows ids rs.reverse := by
  induction rs using List.reverseRecOn with
  | nil => exact follows_fresh ids
  | append_singleton rs r ih =>
    rw [after_append, List.reverse_append]
    exact ih.answer r.1 r.2

end

/-! ## What a table shows -/

/-- All that a table can be asked, told by its names and their values. -/
structure Shows (f : Family) (id : String) (names : List String) (value : String → Double) :
    Prop where
  nodup : names.Nodup
  names_eq : (f.answer id .names).2 = .names names
  size_eq : (f.answer id .size).2 = .count names.length
  values_eq : (f.answer id .values).2 = .numbers (names.map value)
  entries_eq : (f.answer id .entries).2 = .bindings (names.map fun name => (name, value name))
  known {i : Nat} {name : String} (h : names[i]? = some name) :
    (f.answer id (.slot name)).2 = .count i ∧ (f.answer id (.slotFor name)).2 = .count i ∧
      (f.answer id (.value name)).2 = .number (value name) ∧
      (f.answer id (.lookup name)).2 = .maybeNumber (some (value name)) ∧
      (f.answer id (.contains name)).2 = .flag true
  unknown {name : String} (h : name ∉ names) :
    (f.answer id (.slot name)).2 = .unknown ⟨name⟩ ∧
      (f.answer id (.slotFor name)).2 = .count names.length ∧
      (f.answer id (.value name)).2 = .unknown ⟨name⟩ ∧
      (f.answer id (.lookup name)).2 = .maybeNumber none ∧
      (f.answer id (.contains name)).2 = .flag false

/-- **A table shows its names, each at its place, and their values.** -/
theorem shows_of_lookup {f : Family} {id : String} {t : Table}
    (h : f.tables.lookup id = some t) : f.Shows id t.names t.valueOf where
  nodup := t.nodup
  names_eq := by simp only [Family.answer, h]
  size_eq := by simp only [Family.answer, h, size_eq_length_names]
  values_eq := by simp only [Family.answer, h, Table.values_eq]
  entries_eq := by simp only [Family.answer, h, entries_eq_graph]
  known {i name} hi := by
    have hmem : name ∈ t.names := List.mem_of_getElem? hi
    have hplace : t.names.idxOf name = i := by
      obtain ⟨hlt, rfl⟩ := List.getElem?_eq_some_iff.mp hi
      exact List.Nodup.idxOf_getElem t.nodup i hlt
    simp only [Family.answer, h, slotFor_eq, slot, value, slot?_of_mem hmem, lookup_of_mem hmem,
      answerBy, contains_eq_decide, hmem, hplace, decide_true, and_self]
  unknown {name} hname := by
    have hplace : t.names.idxOf name = t.names.length := List.idxOf_eq_length hname
    simp only [Family.answer, h, slotFor_eq, slot, value, slot?_of_not_mem hname,
      lookup_of_not_mem hname, answerBy, contains_eq_decide, hname, hplace, decide_false, and_self]

/-! ## Requests that change little -/

section

variable {f : Family} {id : String} {t : Table}

theorem lookup_answer_of_idle (h : f.tables.lookup id = some t) {r : Request}
    (hr : r.Idle t.names) (other : String) :
    (f.answer id r).1.tables.lookup other = f.tables.lookup other := by
  rw [lookup_answer h]
  have hsame : (if other = id then some t else f.tables.lookup other) = f.tables.lookup other := by
    split
    · next hother => rw [hother, h]
    · rfl
  cases r with
  | slotFor name =>
    have hmem : name ∈ t.names := hr
    simp only [register_of_mem hmem, hsame]
  | set name v =>
    have hmem : name ∉ t.names := hr
    simp only [set_of_not_mem hmem, hsame]
  | copy target => exact hr.elim
  | slot | value | lookup | contains | size | names | values | entries => rfl

/-- **A request changes no other table**, unless it puts a copy there. -/
theorem lookup_answer_of_ne (h : f.tables.lookup id = some t) {r : Request} {other : String}
    (hother : other ≠ id) (hr : r ≠ .copy other) :
    (f.answer id r).1.tables.lookup other = f.tables.lookup other := by
  rw [lookup_answer h]
  cases r with
  | slotFor | set => exact if_neg hother
  | copy target =>
    have htarget : other ≠ target := fun heq => hr (by rw [heq])
    exact if_neg htarget
  | slot | value | lookup | contains | size | names | values | entries => rfl

end

/-- **Names stay in their places**, as long as no other table is copied there. -/
theorem namesIn_append {ids : List (String × Bool)} {history later : List (String × Request)}
    {id : String} {names : List String} (h : namesIn ids history id = some names)
    (hlater : ∀ e ∈ later, e.2 ≠ .copy id) :
    ∃ new, namesIn ids (later ++ history) id = some (names ++ new) := by
  induction later with
  | nil => exact ⟨[], by rw [List.append_nil]; exact h⟩
  | cons e later ih =>
    obtain ⟨new, hnew⟩ := ih fun e he => hlater e (List.mem_cons_of_mem _ he)
    have hfirst : e.2 ≠ .copy id := hlater e List.mem_cons_self
    obtain ⟨source, r⟩ := e
    rw [List.cons_append]
    cases r with
    | slotFor name =>
      rw [namesIn, hnew]
      split
      · by_cases hname : name ∈ names ++ new
        · exact ⟨new, by rw [Option.map_some, if_pos hname]⟩
        · exact ⟨new ++ [name], by rw [Option.map_some, if_neg hname, List.append_assoc]⟩
      · exact ⟨new, rfl⟩
    | copy target =>
      have htarget : target ≠ id := fun heq => hfirst (by rw [heq])
      exact ⟨new, by rw [namesIn, if_neg htarget, hnew]⟩
    | set | slot | value | lookup | contains | size | names | values | entries =>
      exact ⟨new, hnew⟩

/--
**A table answers as its history says.**

The tables begin with the constants or with nothing, and others arise as copies. Whatever has been
asked of them, a table has distinct names, the slot of each is its place, and there is one value for
each. These are the values set last on this table, or on the one that it was copied from before the
copy. A name keeps its slot as long as the table is there. To ask for what is known, or to set what
is not known, changes nothing, and no request to another table changes anything here.
-/
theorem answer_after (ids : List (String × Bool)) (history : List (String × Request))
    (id : String) :
    let f := (fresh ids).after history
    (namesIn ids history.reverse id = none → ∀ r, f.answer id r = (f, .unbound id)) ∧
      ∀ names, namesIn ids history.reverse id = some names →
        f.Shows id names (valueIn ids history.reverse id) ∧
        (∀ later, (∀ e ∈ later, e.2 ≠ .copy id) →
          ∃ new, namesIn ids (history ++ later).reverse id = some (names ++ new)) ∧
        (∀ r, r.Idle names →
          ∀ other, (f.answer id r).1.tables.lookup other = f.tables.lookup other) ∧
        ∀ r other, other ≠ id → r ≠ .copy other →
          (f.answer id r).1.tables.lookup other = f.tables.lookup other := by
  intro f
  have hfollows : f.Follows ids history.reverse := follows_after ids history
  constructor
  · intro hnone r
    rw [← hfollows.names, Option.map_eq_none_iff] at hnone
    exact answer_of_unbound hnone r
  · intro names hnames
    have hlookup := hnames
    rw [← hfollows.names] at hlookup
    obtain ⟨t, ht, rfl⟩ := Option.map_eq_some_iff.mp hlookup
    refine ⟨?_, ?_, fun r hr => lookup_answer_of_idle ht hr,
      fun r other => lookup_answer_of_ne ht⟩
    · rw [← hfollows.value ht]
      exact shows_of_lookup ht
    · intro later hlater
      rw [List.reverse_append]
      exact namesIn_append hnames fun e he => hlater e (List.mem_reverse.mp he)

/-- A table and its copy, grown apart: the copy is set, and the original is given another name. -/
theorem answer_after_copy :
    let history : List (String × Request) := [("t", .set "x" .one), ("t", .slotFor "x"),
      ("t", .set "x" (.ofNat 2)), ("t", .copy "u"), ("u", .set "x" .zero), ("t", .slotFor "y"),
      ("u", .set "y" .one)]
    ((fresh [("t", false)]).after history).Shows "t" ["x", "y"]
        (valueIn [("t", false)] history.reverse "t") ∧
      ((fresh [("t", false)]).after history).Shows "u" ["x"]
        (valueIn [("t", false)] history.reverse "u") ∧
      valueIn [("t", false)] history.reverse "t" "x" = .ofNat 2 ∧
      valueIn [("t", false)] history.reverse "t" "y" = .nan ∧
      valueIn [("t", false)] history.reverse "u" "x" = .zero := by
  intro history
  have ht : namesIn [("t", false)] history.reverse "t" = some ["x", "y"] := by decide
  have hu : namesIn [("t", false)] history.reverse "u" = some ["x"] := by decide
  obtain ⟨hshows, -⟩ := (answer_after [("t", false)] history "t").2 _ ht
  obtain ⟨hcopy, -⟩ := (answer_after [("t", false)] history "u").2 _ hu
  exact ⟨hshows, hcopy, by decide +kernel, by decide +kernel, by decide +kernel⟩

end Family

end Formula.Table
