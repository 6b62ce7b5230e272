import BatchShell.Text.Case

/-!
# Environment variables

Variables live in a stack of frames. The base frame is the persistent environment; each open local scope
adds a frame of changes, which closing the scope discards. Names are compared without regard to case, and
the spelling of the latest assignment is kept. A deletion inside a scope is recorded there, so that the
outer value is hidden until the scope is closed.

* `Environment.get?`, `set`, `unset`, `delete` read and change variables in the innermost frame.
* `Environment.pushScope`, `popScope?`, `truncateScopes` open and close scopes.
* `Environment.visible` lists what can be read, in the order of the names.
-/
namespace BatchShell

open Text

structure Variable where
  name : String
  value : String
  deriving DecidableEq

/-- Changes by upper-case name; `none` records a deletion. -/
abbrev Frame := List (String × Option Variable)

namespace Frame

def find? (f : Frame) (key : String) : Option (Option Variable) := f.lookup key

/-- Record a change, in place of an earlier one for the same name. -/
def insert (key : String) (entry : Option Variable) : Frame → Frame
  | [] => [(key, entry)]
  | (k, e) :: rest => if k == key then (key, entry) :: rest else (k, e) :: insert key entry rest

def erase (key : String) (f : Frame) : Frame := f.filter (·.1 != key)

end Frame

/-- The open scopes, innermost first, over the persistent frame. -/
structure Environment where
  scopes : List Frame
  base : Frame
  deriving DecidableEq

namespace Environment

def empty : Environment := ⟨[], []⟩

/-- The change recorded for a name in the innermost frame that has one. -/
def lookup (key : String) : List Frame → Option (Option Variable)
  | [] => none
  | f :: fs =>
    match f.find? key with
    | some entry => some entry
    | none => lookup key fs

def frames (env : Environment) : List Frame := env.scopes ++ [env.base]

/-- The visible value of a name. -/
def get? (env : Environment) (name : String) : Option String :=
  ((lookup (upper name) env.frames).join).map (·.value)

def contains (env : Environment) (name : String) : Bool := (env.get? name).isSome

def modifyInner (env : Environment) (change : Frame → Frame) : Environment :=
  match env.scopes with
  | [] => { env with base := change env.base }
  | f :: fs => { env with scopes := change f :: fs }

def set (env : Environment) (name value : String) : Environment :=
  env.modifyInner (Frame.insert (upper name) (some ⟨name, value⟩))

def unset (env : Environment) (name : String) : Environment :=
  match env.scopes with
  | [] => env.modifyInner (Frame.erase (upper name))
  | _ :: _ => env.modifyInner (Frame.insert (upper name) none)

/-- Delete a name, and tell whether it was visible before. -/
def delete (env : Environment) (name : String) : Bool × Environment := (env.contains name, env.unset name)

def ofList (vars : List (String × String)) : Environment :=
  vars.foldl (fun env (name, value) => env.set name value) empty

def pushScope (env : Environment) : Environment := { env with scopes := [] :: env.scopes }

/-- Close the innermost local scope, if one is open. -/
def popScope? (env : Environment) : Option Environment :=
  match env.scopes with
  | [] => none
  | _ :: outer => some { env with scopes := outer }

def depth (env : Environment) : Nat := env.scopes.length

/-- Close scopes until at most `depth` are open. -/
def truncateScopes (env : Environment) (depth : Nat) : Environment :=
  { env with scopes := env.scopes.drop (env.scopes.length - depth) }

/-- All changes of all frames, inner ones over outer ones. -/
def merged (env : Environment) : Frame :=
  env.scopes.foldr (fun f below => f.foldl (fun acc (k, e) => acc.insert k e) below) env.base

/-- The visible variables in the order of their upper-case names. -/
def visible (env : Environment) : List Variable :=
  (env.merged.filterMap (·.2)).mergeSort fun a b => decide (upper a.name ≤ upper b.name)

/-- The visible variables whose names start with `start`, in any case. -/
def withPrefix (env : Environment) (start : String) : List Variable :=
  env.visible.filter fun v => (upper start).toList.isPrefixOf (upper v.name).toList

end Environment

def scopeUnderflow : String := "ENDLOCAL without matching SETLOCAL"

end BatchShell
