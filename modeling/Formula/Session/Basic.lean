import Formula.Session.CompileCache
import Formula.Session.Settings

/-!
# Sessions

A session holds expressions under names of its own, all built through one cache. It answers requests
one after the other; a request that fails leaves the session as if it had not been made, apart from
the figures of the cache.
-/

namespace Formula

/-- What a session can be asked. -/
inductive Request where
  | new (id text : String) (fold : Option Bool)
  | attempt (id text : String) (fold : Option Bool)
  | set (id name : String) (value : Double)
  | get (id name : String)
  | lookup (id name : String)
  | eval (id : String)
  | call (id : String) (bindings : List (String × Double))
  | batch (id : String) (columns : List (String × Tensor Double))
  | freeVariables (id : String)
  | variables (id : String)
  | source (id : String)
  | text (id : String)
  | figures
  | reset
  | foldingDefault

/-- Why a request fails. -/
inductive RequestError where
  | unbound (id : String)
  | compile (error : CompileError)
  | unknown (error : UnknownVariable)
  | receiver (error : ReceiverClash)
  | run (error : RunError)

inductive Answer where
  | done
  | constructed
  | attempted (error : Option CompileError)
  | number (value : Double)
  | maybeNumber (value : Option Double)
  | array (value : Tensor Double)
  | names (names : List String)
  | bindings (entries : List (String × Double))
  | text (text : String)
  | figures (figures : CacheFigures)
  | flag (value : Bool)
  | failed (error : RequestError)

/-- The expressions by name, and the cache through which they are built. -/
structure Session where
  settings : Settings
  cache : CompileCache
  bound : List (String × Expression)

namespace Session

def start (settings : Settings) : Session := ⟨settings, .empty settings.cacheCapacity, []⟩

/-- Binds a name anew. -/
def bind (s : Session) (id : String) (e : Expression) : Session :=
  { s with bound := (id, e) :: s.bound.filter fun b => b.1 ≠ id }

/-- Builds an expression and binds it, if the text compiles. -/
def construct (s : Session) (K : Kernels) (id text : String) (fold : Option Bool) :
    Session × Option CompileError :=
  let (cache, built) := s.cache.construct K text (s.settings.fold fold)
  let s := { s with cache }
  match built with
  | .ok e => (s.bind id e, none)
  | .error e => (s, some e)

/-- Answers by the expression under a name. -/
def withBound (s : Session) (id : String) (f : Expression → Session × Answer) : Session × Answer :=
  match s.bound.lookup id with
  | some e => f e
  | none => (s, .failed (.unbound id))

/-- Answers by the expression under a name and leaves the session as it is. -/
def ask (s : Session) (id : String) (f : Expression → Answer) : Session × Answer :=
  s.withBound id fun e => (s, f e)

def ofRun : Except RunError Double → Answer
  | .ok v => .number v
  | .error e => .failed (.run e)

def ofBatch : Except RunError (Tensor Double) → Answer
  | .ok t => .array t
  | .error e => .failed (.run e)

/-- Answers one request. -/
def answer (s : Session) (K : Kernels) : Request → Session × Answer
  | .new id text fold =>
    match s.construct K id text fold with
    | (s, none) => (s, .constructed)
    | (s, some e) => (s, .failed (.compile e))
  | .attempt id text fold =>
    let (s, error) := s.construct K id text fold
    (s, .attempted error)
  | .set id name v => s.withBound id fun e => (s.bind id (e.set name v), .done)
  | .get id name => s.ask id fun e =>
    match e.value name with
    | .ok v => .number v
    | .error e => .failed (.unknown e)
  | .lookup id name => s.ask id fun e => .maybeNumber (e.lookup name)
  | .eval id => s.ask id fun e => ofRun (e.eval K)
  | .call id bindings => s.withBound id fun e =>
    match e.call K bindings with
    | .ok (e, result) => (s.bind id e, ofRun result)
    | .error clash => (s, .failed (.receiver clash))
  | .batch id columns => s.ask id fun e =>
    match e.callBatch K columns with
    | .ok result => ofBatch result
    | .error clash => .failed (.receiver clash)
  | .freeVariables id => s.ask id fun e => .names e.freeVariables
  | .variables id => s.ask id fun e => .bindings e.table.entries
  | .source id => s.ask id fun e => .text e.source
  | .text id => s.ask id fun e => .text e.text
  | .figures => (s, .figures s.cache.figures)
  | .reset => ({ s with cache := s.cache.reset }, .figures s.cache.figures)
  | .foldingDefault => (s, .flag s.settings.foldByDefault)

/-- Answers requests in order. -/
def answerAll (K : Kernels) : Session → List Request → List Answer
  | _, [] => []
  | s, r :: rest =>
    let (s, a) := s.answer K r
    a :: s.answerAll K rest

end Session

end Formula
