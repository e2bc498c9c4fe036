import Lox.Proofs.Direct.Evaluate
import Lox.Proofs.Direct.Formed
import Lox.Proofs.Direct.Related
import Lox.Proofs.Watch.Preservation

/-! The state of a direct run beside a watched machine. Each frame of the state has its home among the
frames of the machine, which has others besides: one for every round of a loop with an increment. Nothing
is ever bound in those. -/

namespace Lox.Direct

section Homes

variable {home home' : List FrameRef} {i : Nat} {frame : FrameRef}

lemma home_mono (h : home <+: home') (hi : home[i]? = some frame) : home'[i]? = some frame := by
  obtain ⟨more, rfl⟩ := h
  rw [List.getElem?_append_left (List.getElem?_eq_some_iff.mp hi).1, hi]

/-- The frames of the state are those of the machine at their homes, in the same order, and in the others
nothing is bound. -/
structure Mirrors (home : List FrameRef) (f : Frames) (frames : Array (Bindings Value)) : Prop where
  globals : home[FrameRef.globals.index]? = some .globals
  length : home.length = frames.size
  ordered : home.Pairwise (·.index < ·.index)
  bindings : ∀ (i : Nat) frame, home[i]? = some frame →
    (f.get? frame).map Frame.bindings = frames[i]?
  others : ∀ frame found, f.get? frame = some found → frame ∉ home → found.bindings = ∅

namespace Mirrors

variable {f : Frames} {frames : Array (Bindings Value)} {ref : FrameRef} {name : String}

lemma initial : Mirrors [.globals] Frames.initial #[∅] where
  globals := rfl
  length := rfl
  ordered := List.pairwise_singleton ..
  bindings i frame hi := by
    obtain ⟨rfl, rfl⟩ : i = 0 ∧ FrameRef.globals = frame := by
      simpa [List.getElem?_singleton] using hi
    rfl
  others frame found hfound hmem := by
    obtain ⟨i⟩ := frame
    have hzero : i = 0 := by
      simpa [Frames.get?, Frames.initial] using (Array.getElem?_eq_some_iff.mp hfound).1
    exact absurd (List.mem_singleton.mpr (congrArg FrameRef.mk hzero)) hmem

lemma index_lt (h : Mirrors home f frames) (hf : frame ∈ home) : frame.index < f.all.size := by
  obtain ⟨i, hi, rfl⟩ := List.getElem_of_mem hf
  have hbindings := h.bindings i _ (List.getElem?_eq_getElem hi)
  rw [Array.getElem?_eq_getElem (h.length ▸ hi)] at hbindings
  obtain ⟨found, hfound, -⟩ := Option.map_eq_some_iff.mp hbindings
  rw [Frames.index_lt_iff, hfound]
  rfl

lemma lookup?_eq (h : Mirrors home f frames) (hi : home[i]? = some frame) (name : String) :
    f.lookup? frame name = frames[i]?.bind (·.get? name) := by
  rw [← h.bindings i frame hi, Frames.lookup?]
  cases f.get? frame <;> rfl

lemma ne_next (h : Mirrors home f frames) (hi : home[i]? = some frame) : frame ≠ f.next :=
  Frames.ne_next_of_index_lt (h.index_lt (List.mem_of_getElem? hi))

lemma push (h : Mirrors home f frames) (enclosing : FrameRef) (bindings : Bindings Value) :
    Mirrors (home ++ [f.next]) (f.push enclosing bindings) (frames.push bindings) where
  globals := home_mono (List.prefix_append ..) h.globals
  length := by simp [h.length]
  ordered := by
    refine List.pairwise_append.mpr ⟨h.ordered, List.pairwise_singleton .., fun frame hframe other ho => ?_⟩
    obtain rfl := List.mem_singleton.mp ho
    exact h.index_lt hframe
  bindings i frame hi := by
    rw [Frames.get?_push, Array.getElem?_push, ← h.length]
    by_cases hlast : i = home.length
    · obtain rfl : frame = f.next := by simpa [hlast] using hi.symm
      rw [if_pos rfl, if_pos hlast]
      rfl
    · have hlt : i < home.length := by
        have hle := (List.getElem?_eq_some_iff.mp hi).1
        rw [List.length_append, List.length_singleton] at hle
        omega
      rw [List.getElem?_append_left hlt] at hi
      rw [if_neg (h.ne_next hi), if_neg hlast]
      exact h.bindings i frame hi
  others frame found hfound hmem := by
    rw [List.mem_append, List.mem_singleton, not_or] at hmem
    rw [Frames.get?_push, if_neg hmem.2] at hfound
    exact h.others frame found hfound hmem.1

lemma extra (h : Mirrors home f frames) (enclosing : FrameRef) :
    Mirrors home (f.push enclosing ∅) frames where
  globals := h.globals
  length := h.length
  ordered := h.ordered
  bindings i frame hi := by
    rw [Frames.get?_push, if_neg (h.ne_next hi)]
    exact h.bindings i frame hi
  others frame found hfound hmem := by
    rw [Frames.get?_push] at hfound
    split at hfound
    · rw [← Option.some.inj hfound]
    · exact h.others frame found hfound hmem

lemma eq_of_home (h : Mirrors home f frames) {j : Nat} (hi : home[i]? = some frame)
    (hj : home[j]? = some frame) : i = j := by
  have hnodup : home.Nodup :=
    h.ordered.imp fun hlt heq => Nat.ne_of_lt hlt (congrArg FrameRef.index heq)
  exact (List.getElem?_inj (List.getElem?_eq_some_iff.mp hi).1 hnodup).mp (hi.trans hj.symm)

lemma define (h : Mirrors home f frames) (hi : home[i]? = some frame) (name : String) (value : Value) :
    Mirrors home (f.define frame name value) (frames.modify i (·.insert name value)) where
  globals := h.globals
  length := by simp [h.length]
  ordered := h.ordered
  bindings j other hj := by
    have hbindings := h.bindings j other hj
    rw [Frames.get?_define, Array.getElem?_modify]
    by_cases heq : i = j
    · subst heq
      obtain rfl : frame = other := Option.some.inj (hi.symm.trans hj)
      rw [if_pos rfl, if_pos rfl, ← hbindings]
      cases f.get? frame <;> rfl
    · have hne : frame ≠ other := by
        rintro rfl
        exact heq (h.eq_of_home hi hj)
      rw [if_neg heq, if_neg hne]
      exact hbindings
  others other found hfound hmem := by
    have hne : frame ≠ other := by
      rintro rfl
      exact hmem (List.mem_of_getElem? hi)
    rw [Frames.get?_define, if_neg hne] at hfound
    exact h.others other found hfound hmem

end Mirrors

end Homes

/-- The levels are those of the scopes. A scope of the machine that has no level has no name either. The
innermost one, at least, has its level if the levels are to get new names. -/
inductive Env.Follows (home : List FrameRef) : (exact : Bool) → List Scope → List FrameRef → Env → Prop
  | top : Follows home true [] [] []
  | level {exact scope scopes frame frames level env} : Follows home exact scopes frames env →
      (∀ name, scope.contains name = true ↔ name ∈ level.names) →
      home[level.frame.index]? = some frame →
      Follows home true (scope :: scopes) (frame :: frames) (level :: env)
  | extra {exact scopes frame frames env} : Follows home exact scopes frames env →
      Follows home false (∅ :: scopes) (frame :: frames) env

namespace Env.Follows

variable {home home' : List FrameRef} {exact : Bool} {scopes : List Scope} {frames : List FrameRef}
  {env : Env}

lemma mono (h : Follows home exact scopes frames env) (hle : home <+: home') :
    Follows home' exact scopes frames env := by
  induction h with
  | top => exact .top
  | level _ hnames hframe ih => exact .level ih hnames (home_mono hle hframe)
  | extra _ ih => exact .extra ih

lemma find (h : Follows home exact scopes frames env)
    (hglobals : home[FrameRef.globals.index]? = some .globals) (name : String) :
    ∃ frame, home[(env.frameOf name).index]? = some frame ∧
      match scopes.findIdx? (·.contains name) with
      | some distance => frames[distance]? = some frame
      | none => frame = .globals := by
  induction h with
  | top => exact ⟨.globals, hglobals, rfl⟩
  | @level _ scope scopes frame frames level env _ hnames hframe ih =>
    rw [List.findIdx?_cons]
    by_cases hn : name ∈ level.names
    · rw [if_pos ((hnames name).mpr hn)]
      refine ⟨frame, ?_, rfl⟩
      simpa [frameOf, List.find?_cons, hn] using hframe
    · rw [if_neg (mt (hnames name).mp hn)]
      obtain ⟨outer, houter, hfound⟩ := ih
      refine ⟨outer, ?_, ?_⟩
      · simpa [frameOf, List.find?_cons, hn] using houter
      · cases hidx : scopes.findIdx? (·.contains name) with
        | none => simpa [hidx] using hfound
        | some distance => simpa [hidx] using hfound
  | @extra _ scopes frame frames env _ ih =>
    obtain ⟨outer, houter, hfound⟩ := ih
    refine ⟨outer, houter, ?_⟩
    have hempty : (∅ : Scope).contains name = false := by simp [Bindings.contains]
    rw [List.findIdx?_cons, if_neg (by simp [hempty])]
    cases hidx : scopes.findIdx? (·.contains name) with
    | none => simpa [hidx] using hfound
    | some distance => simpa [hidx] using hfound

lemma innermost (h : Follows home true scopes frames env)
    (hglobals : home[FrameRef.globals.index]? = some .globals) :
    home[env.innermost.index]? = some (frames.headD .globals) := by
  cases h with
  | top => exact hglobals
  | level _ _ hframe => exact hframe

lemma declaring {site : Site} (h : Follows home true site.scopes site.frames env) (name : Name) :
    Follows home true (site.declaring name).scopes (site.declaring name).frames (env.declare name) := by
  obtain ⟨context, scopes, frames⟩ := site
  cases h with
  | top => exact .top
  | level hrest hnames hframe =>
    refine .level hrest (fun other => ?_) hframe
    rw [Bindings.contains_insert, Bool.or_eq_true, beq_iff_eq, hnames, List.mem_cons]

lemma introducing {site : Site} (h : Follows home true site.scopes site.frames env) (name : Name) :
    Follows home true (site.introducing name).scopes (site.introducing name).frames
      (env.declare name) := by
  obtain ⟨context, scopes, frames⟩ := site
  cases h with
  | top => exact .top
  | level hrest hnames hframe =>
    refine .level hrest (fun other => ?_) hframe
    rw [Bindings.contains_insert, Bindings.contains_insert, Bool.or_eq_true, Bool.or_eq_true, beq_iff_eq,
      hnames, List.mem_cons, ← or_assoc, or_self]

/-- Behind a statement that is no declaration the place is the same, and so are the levels. -/
lemma after {site : Site} (h : Follows home exact site.scopes site.frames env) {stated : Stmt}
    (hp : stated.desugar.Proper) (hexact : stated.desugar.isDeclaration = true → exact = true) :
    Follows home exact (site.after stated.desugar).scopes (site.after stated.desugar).frames
      (env.after stated) := by
  cases stated with
  | varDecl name initial =>
    obtain rfl := hexact rfl
    exact h.introducing name
  | functionDecl decl =>
    obtain rfl := hexact rfl
    obtain ⟨name, params, body⟩ := decl
    exact h.introducing name
  | classDecl decl =>
    obtain rfl := hexact rfl
    obtain ⟨name, superclass, methods⟩ := decl
    exact h.introducing name
  | expression | print | block | ret => exact h
  | ifElse condition thenBranch elseBranch =>
    rw [Site.after_eq (by cases elseBranch <;> rfl) hp]
    exact h
  | whileLoop condition body =>
    rw [Site.after_eq rfl hp]
    exact h
  | forLoop initial condition increment body =>
    rw [Site.after_eq (by cases initial <;> rfl) hp]
    exact h

end Env.Follows

/-- The function is made from the same declaration, at the place. An initializer finds its instance in
the frame in which it is declared. -/
structure Closure.Stands (home : List FrameRef) (own : Closure) (closure : Lox.Closure) (site : Site) :
    Prop where
  decl : closure.decl = own.decl.desugar
  formed : own.decl.Formed
  isInitializer : closure.isInitializer = own.isInitializer
  follows : own.env.Follows home true site.scopes site.frames
  this : own.isInitializer = true →
    home[(own.env.frameOf Scope.thisName).index]? = some closure.scope

/-- The method is one of a class that is declared at the place. -/
structure Closure.Belongs (home : List FrameRef) (own : Closure) (method : Lox.Closure)
    (site : ClassSite) : Prop where
  decl : method.decl = own.decl.desugar
  formed : own.decl.Formed
  isInitializer : method.isInitializer = own.isInitializer
  follows : own.env.Follows home true site.scopes site.frames

structure Class.Stands (home : List FrameRef) (own : Class) (type : Lox.Class) (site : ClassSite) :
    Prop where
  name : type.name = own.name
  superclass : type.superclass = own.superclass
  methods : ∀ name, Option.Rel (fun method own => Closure.Belongs home own method site)
    (type.methods.get? name) (own.methods.get? name)

section Stands

variable {home home' : List FrameRef}

lemma Closure.Stands.mono {own : Closure} {closure : Lox.Closure} {site : Site}
    (h : own.Stands home closure site) (hle : home <+: home') : own.Stands home' closure site :=
  ⟨h.decl, h.formed, h.isInitializer, h.follows.mono hle, fun hi => home_mono hle (h.this hi)⟩

lemma Closure.Belongs.mono {own : Closure} {method : Lox.Closure} {site : ClassSite}
    (h : own.Belongs home method site) (hle : home <+: home') : own.Belongs home' method site :=
  ⟨h.decl, h.formed, h.isInitializer, h.follows.mono hle⟩

lemma Class.Stands.mono {own : Class} {type : Lox.Class} {site : ClassSite}
    (h : own.Stands home type site) (hle : home <+: home') : own.Stands home' type site :=
  ⟨h.name, h.superclass, fun name => rel_imp (fun _ _ hmethod => hmethod.mono hle) (h.methods name)⟩

lemma Closure.Belongs.bound {own : Closure} {method : Lox.Closure} {site : ClassSite}
    (h : own.Belongs home method site) {ref scope : FrameRef} (href : home[ref.index]? = some scope) :
    Closure.Stands home { own with env := ⟨[Scope.thisName], ref⟩ :: own.env }
      { method with scope } (site.bound { method with scope }) where
  decl := h.decl
  formed := h.formed
  isInitializer := h.isInitializer
  follows := .level h.follows (fun name => by simp [Scope.contains_single]) href
  this _ := by simpa [Env.frameOf] using href

end Stands

/-- The state and the watched machine have the same instances, output and clock, and their functions
and classes are made from the same declarations, at the same places. -/
structure Tied (home : List FrameRef) (w : Watch) (s : State) : Prop where
  frames : Mirrors home w.machine.frames s.frames
  sizeFunctions : s.functions.size = w.machine.functions.size
  sizeClasses : s.classes.size = w.machine.classes.size
  functions : ∀ (i : Nat) closure site own, w.machine.functions[i]? = some closure →
    w.journal.functions[i]? = some site → s.functions[i]? = some own → own.Stands home closure site
  classes : ∀ (i : Nat) type site own, w.machine.classes[i]? = some type →
    w.journal.classes[i]? = some site → s.classes[i]? = some own → own.Stands home type site
  instances : s.instances = w.machine.instances
  output : s.output = w.machine.output
  clock : s.clock = w.machine.clock

namespace Tied

variable {programs : List Lox.Program} {home : List FrameRef} {w : Watch} {s : State}

lemma function_cases (h : Tied home w s) (hs : Sound programs w) (i : Nat) :
    w.machine.functions[i]? = none ∧ s.functions[i]? = none ∨
      ∃ closure own site, w.machine.functions[i]? = some closure ∧ s.functions[i]? = some own ∧
        w.journal.functions[i]? = some site ∧ own.Stands home closure site := by
  rcases getElem?_cases h.sizeFunctions i with hnone | ⟨closure, own, hc, ho⟩
  · exact .inl hnone
  · have hlt := (Array.getElem?_eq_some_iff.mp hc).1
    have hsite := Array.getElem?_eq_getElem (hs.sizeFunctions ▸ hlt)
    exact .inr ⟨closure, own, _, hc, ho, hsite, h.functions i closure _ own hc hsite ho⟩

lemma class_cases (h : Tied home w s) (hs : Sound programs w) (i : Nat) :
    w.machine.classes[i]? = none ∧ s.classes[i]? = none ∨
      ∃ type own site, w.machine.classes[i]? = some type ∧ s.classes[i]? = some own ∧
        w.journal.classes[i]? = some site ∧ own.Stands home type site := by
  rcases getElem?_cases h.sizeClasses i with hnone | ⟨type, own, ht, ho⟩
  · exact .inl hnone
  · have hlt := (Array.getElem?_eq_some_iff.mp ht).1
    have hsite := Array.getElem?_eq_getElem (hs.sizeClasses ▸ hlt)
    exact .inr ⟨type, own, _, ht, ho, hsite, h.classes i type _ own ht hsite ho⟩

end Tied

end Lox.Direct
