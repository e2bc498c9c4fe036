import Lox.Proofs.Finder
import Lox.Proofs.Guise.Frames
import Lox.Proofs.Labels.Tree
import Lox.Proofs.Machine.Mapped
import Lox.Proofs.Machine.Steps
import Lox.Proofs.Matching

/-! A machine in another guise: with other lines and names, another binding table and another way of
finding frames. The steps of a run make of a machine in a guise what they make of the machine. -/

namespace Lox

def Closure.relabel (l : Labels) (closure : Closure) : Closure :=
  { closure with decl := closure.decl.relabel l }

@[simp] lemma Closure.arity_relabel (l : Labels) (closure : Closure) :
    (closure.relabel l).arity = closure.arity := by
  simp [arity, relabel]

def Class.relabel (l : Labels) : Class → Class :=
  Class.mapMethods (Closure.relabel l)

/-- The machine with other lines, and other names for variables, in its frames and its code. -/
def Machine.relabel (l : Labels) (m : Machine) : Machine :=
  { m with
    frames := m.frames.rename l.name
    functions := m.functions.map (Closure.relabel l)
    classes := m.classes.map (Class.relabel l) }

namespace Labels

variable (l : Labels)

def cause : RuntimeError.Cause → RuntimeError.Cause
  | .undefinedVariable name => .undefinedVariable (l.name name)
  | other => other

def error (e : RuntimeError) : RuntimeError :=
  ⟨l.cause e.cause, l.line e.line⟩

def halt : Halt → Halt
  | .error e => .error (l.error e)
  | .outOfFuel => .outOfFuel

end Labels

/-- How a run is told otherwise: with other lines and names, another table, and another finder. -/
structure Guise where
  labels : Labels
  table : BindingTable
  find : Finder

namespace Guise

variable {α β : Type} (g : Guise)

def machine (m : Machine) : Machine :=
  { m.relabel g.labels with table := g.table }

/-- On the machine in the guise the second run does as the first. -/
abbrev Carries (m : Machine) (x : Run α) (y : Run β) (value : α → β) : Prop :=
  Matches (fun m m' => m' = g.machine m) g.labels.halt m (g.machine m) x y value

variable {g} {m : Machine}

lemma mapped : Machine.Mapped (Closure.relabel g.labels) m (g.machine m) :=
  ⟨rfl, rfl, rfl⟩

lemma carries_fail {cause cause' : RuntimeError.Cause} {line line' : Nat} (value : α → β)
    (hc : cause' = g.labels.cause cause) (hl : line' = g.labels.line line) :
    g.Carries m (Run.fail cause line) (Run.fail cause' line') value := by
  refine matches_throw value rfl ?_
  rw [hc, hl]
  rfl

lemma carries_require {found : Option α} {found' : Option β} {value : α → β}
    (hfound : found' = found.map value) {cause cause' : RuntimeError.Cause} {line line' : Nat}
    (hc : cause' = g.labels.cause cause) (hl : line' = g.labels.line line) :
    g.Carries m (Run.require found cause line) (Run.require found' cause' line') value := by
  subst hfound
  cases found with
  | none => exact carries_fail value hc hl
  | some a => exact matches_pure rfl rfl

lemma carries_ofResult {line : Nat} {result : Except RuntimeError.Cause α}
    (h : ∀ cause, result = .error cause → g.labels.cause cause = cause) :
    g.Carries m (Run.ofResult line result) (Run.ofResult (g.labels.line line) result) id := by
  cases result with
  | error cause => exact carries_fail id (h cause rfl).symm rfl
  | ok value => exact matches_pure rfl rfl

lemma carries_modify {f f' : Machine → Machine} (h : f' (g.machine m) = g.machine (f m)) :
    g.Carries m (modify f) (modify f') id :=
  ⟨rfl, h⟩

lemma carries_modifyGet {f f' : Machine → α × Machine}
    (hvalue : (f' (g.machine m)).1 = (f m).1) (h : (f' (g.machine m)).2 = g.machine (f m).2) :
    g.Carries m (modifyGet f) (modifyGet f') id :=
  ⟨congrArg Except.ok hvalue, h⟩

lemma carries_newFrame (hsize : 0 < m.frames.all.size) (enclosing : FrameRef)
    {bindings bindings' : Bindings Value} (hb : bindings' = bindings.mapKeys g.labels.name) :
    g.Carries m (Run.newFrame enclosing bindings) (Run.newFrame enclosing bindings') id := by
  subst hb
  refine carries_modifyGet (Frames.next_rename ..) ?_
  simp only [machine, Machine.relabel, Frames.push_rename hsize]

lemma carries_define {frame : FrameRef} {name name' : String}
    (ht : Frames.Tells g.labels.name m.frames frame name) (hn : name' = g.labels.name name)
    (value : Value) :
    g.Carries m (Run.define frame name value) (Run.define frame name' value) id := by
  subst hn
  refine carries_modify ?_
  simp only [machine, Machine.relabel, Frames.define_rename ht]

lemma carries_newFunction (closure : Closure) :
    g.Carries m (Run.newFunction closure) (Run.newFunction (closure.relabel g.labels)) id := by
  refine carries_modifyGet ?_ ?_ <;> simp [machine, Machine.relabel]

lemma carries_newClass (type : Class) :
    g.Carries m (Run.newClass type) (Run.newClass (type.relabel g.labels)) id := by
  refine carries_modifyGet ?_ ?_ <;> simp [machine, Machine.relabel]

lemma carries_newInstance (ref : ClassRef) :
    g.Carries m (Run.newInstance ref) (Run.newInstance ref) id :=
  carries_modifyGet rfl rfl

lemma carries_setField (self : InstanceRef) (name : String) (value : Value) :
    g.Carries m (Run.setField self name value) (Run.setField self name value) id :=
  carries_modify rfl

lemma carries_readClock : g.Carries m Run.readClock Run.readClock id :=
  carries_modifyGet rfl rfl

lemma carries_currentFrame : g.Carries m Run.currentFrame Run.currentFrame id :=
  matches_get (matches_pure rfl rfl)

lemma carries_print (text : String) (line : Nat) :
    g.Carries m (Run.print text line) (Run.print text (g.labels.line line)) id := by
  have hwrites : g.Carries m
      (modify fun m => { m with output := m.output.write (text ++ "\n").toUTF8 })
      (modify fun m => { m with output := m.output.write (text ++ "\n").toUTF8 }) id :=
    carries_modify rfl
  refine matches_get (Matches.bind hwrites fun _ m' t' _ ht => ?_)
  subst ht
  exact .ite (fun _ => carries_fail id rfl rfl) fun _ => matches_pure rfl rfl

lemma carries_makeClass (decl : ClassDecl) (superclass : Option ClassRef) (scope : FrameRef) :
    g.Carries m (Run.makeClass decl superclass scope)
      (Run.makeClass (decl.relabel g.labels) superclass scope) id := by
  obtain ⟨name, parent, methods⟩ := decl
  have hmethods : (∅ : Bindings Closure).insertAll
        ((FunctionDecl.relabelAll g.labels methods).map
          fun method => (method.name.text, ⟨method, scope, method.isInitializer⟩)) =
      ((∅ : Bindings Closure).insertAll (methods.map
        fun method => (method.name.text, ⟨method, scope, method.isInitializer⟩))).map
          (Closure.relabel g.labels) := by
    simp only [Bindings.map_insertAll, FunctionDecl.relabelAll_eq_map, List.map_map,
      Bindings.map_empty]
    congr 2
    funext method
    simp [Closure.relabel, Labels.title]
  simp only [Run.makeClass, ClassDecl.relabel, hmethods]
  exact carries_newClass _

end Guise

end Lox
