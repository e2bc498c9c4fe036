import Lox.Proofs.Local.Scoping
import Lox.Proofs.Watch.Layout

/-! A program with another name for a local variable, resolved side by side with the program itself. -/

namespace Lox

open Renaming

variable {r : Renaming} {x : String}

/-- Events of which each finds its name alike, if they use one. -/
def Renaming.AllAlike (r : Renaming) (x : String) (es : List Event) : Prop :=
  ∀ event ∈ es, event.Alike (r.undo x)

namespace Renaming.AllAlike

variable {es fs : List Event} {event : Event}

lemma append (h : r.AllAlike x es) (h' : r.AllAlike x fs) : r.AllAlike x (es ++ fs) :=
  fun event he => (List.mem_append.mp he).elim (h event) (h' event)

lemma cons (h : event.Alike (r.undo x)) (h' : r.AllAlike x es) : r.AllAlike x (event :: es) :=
  List.forall_mem_cons.mpr ⟨h, h'⟩

lemma nil : r.AllAlike x [] := by
  intro event he
  simp at he

lemma unused {v : Visit} (h : v.node.use? = none) : r.AllAlike x [.visit v] := by
  refine cons ⟨fun i name hu => ?_, fun i name hu => ?_⟩ nil <;> simp [h] at hu

lemma introductions (names : List Name) (scopes : List Scope) :
    r.AllAlike x (Scope.introductions names scopes) := by
  induction names generalizing scopes with
  | nil => exact nil
  | cons name names ih => exact cons trivial (ih _)

end Renaming.AllAlike

section Marking

lemma Renaming.marks_empty : r.Marks x ∅ ∅ := by
  constructor <;> simp [Bindings.contains]

lemma Renaming.marks_single {name : String} (hx : x ≠ name) (hnew : r.name ≠ name) :
    r.Marks x ∅ (Scope.single name) := by
  have hcontains (other : String) (h : other ≠ name) : (Scope.single name).contains other = false := by
    simp [Scope.single, h, Bindings.contains]
  constructor
  · simp [hcontains _ hnew]
  · simp [hcontains _ hx]
  · simp

end Marking

structure Renaming.Between (r : Renaming) (x : String) : Prop where
  old : Scope.IsPlain x
  new : Scope.IsPlain r.name

lemma Renaming.Between.plain (h : r.Between x) : (r.undo x).Plain where
  this name := by
    by_cases hname : name = r.name
    · subst hname
      rw [undo_new]
      exact ⟨fun hx => absurd hx h.old.1, fun hn => absurd hn h.new.1⟩
    · rw [undo_other hname]
  super name := by
    by_cases hname : name = r.name
    · subst hname
      rw [undo_new]
      exact ⟨fun hx => absurd hx h.old.2, fun hn => absurd hn h.new.2⟩
    · rw [undo_other hname]

lemma Renaming.special_alike (hb : r.Between x) {name : String} (hname : ¬ Scope.IsPlain name)
    (scopes : List Scope) :
    (scopes.map (r.undo x).scope).findIdx? (·.contains ((r.undo x).name name)) =
      scopes.findIdx? (·.contains name) ∧ (r.undo x).name name = name := by
  have hx : name ≠ x := fun h => hname (h ▸ hb.old)
  have hnew : name ≠ r.name := fun h => hname (h ▸ hb.new)
  rw [List.findIdx?_map, undo_other hnew]
  exact ⟨findIdx?_other hx hnew, rfl⟩

lemma Renaming.title_undo (r : Renaming) (x : String) (name : Name) : (r.undo x).title name = name :=
  rfl

lemma Renaming.line_undo (r : Renaming) (x : String) (line : Nat) : (r.undo x).line line = line :=
  rfl

lemma Renaming.keyword_undo {keyword : Reference} (hnew : keyword.name.text ≠ r.name) :
    (r.undo x).reference keyword = keyword := by
  rw [Labels.reference, Labels.named, undo_other hnew]
  rfl

section Expressions

variable {origins : Origins} {context : Context} {scopes : List Scope}

mutual

/-- An expression under other names has its own names in the place of the new one, and each name is
found in it alike. -/
lemma Expr.renameLocal_undo (hb : r.Between x) (h : List.Forall₂ (r.Marks x) origins scopes)
    (value : Expr) (hc : r.Clear (value.events context (scopes.map (r.undo x).scope))) :
    (value.renameLocal r origins).relabel (r.undo x) = value ∧
      r.AllAlike x ((value.renameLocal r origins).events context scopes) := by
  cases value with
  | literal value => exact ⟨rfl, .unused rfl⟩
  | read target =>
    have hnew : target.name.text ≠ r.name := hc.head.2 _ rfl
    refine ⟨congrArg Expr.read (reference_undo h hnew), .cons ⟨?_, ?_⟩ .nil⟩ <;>
      rintro _ _ ⟨⟩
    · exact (reference_alike h hnew).1
    · exact (reference_alike h hnew).2
  | assign target value =>
    obtain ⟨hvalue, halike⟩ := Expr.renameLocal_undo hb h value hc.left
    have hnew : target.name.text ≠ r.name := hc.right.head.2 _ rfl
    refine ⟨congrArg₂ Expr.assign (reference_undo h hnew) hvalue,
      halike.append (.cons ⟨?_, ?_⟩ .nil)⟩ <;>
      rintro _ _ ⟨⟩
    · exact (reference_alike h hnew).1
    · exact (reference_alike h hnew).2
  | this keyword =>
    have hspecial := special_alike hb Scope.thisName_not_plain scopes
    have hkeyword := keyword_undo (x := x) (hc.head.2 keyword rfl)
    refine ⟨congrArg Expr.this hkeyword, .cons ⟨?_, ?_⟩ .nil⟩ <;> rintro _ _ ⟨⟩
    · exact hspecial.1
    · exact .inl hspecial.2
  | super keyword method =>
    have hspecial := special_alike hb Scope.superName_not_plain scopes
    have hkeyword := keyword_undo (x := x) (hc.head.2 keyword rfl)
    refine ⟨congrArg (Expr.super · method) hkeyword, .cons ⟨?_, ?_⟩ .nil⟩ <;> rintro _ _ ⟨⟩
    · exact hspecial.1
    · exact .inl hspecial.2
  | grouping inner | unary _ _ inner | get inner _ =>
    obtain ⟨hinner, halike⟩ := Expr.renameLocal_undo hb h inner hc.left
    refine ⟨?_, halike.append (.unused rfl)⟩
    simp only [Expr.renameLocal, Expr.relabel, hinner, title_undo, line_undo]
  | binary _ _ left right | logical _ _ left right | set right _ left =>
    obtain ⟨hleft, halike⟩ := Expr.renameLocal_undo hb h left hc.left
    obtain ⟨hright, halike'⟩ := Expr.renameLocal_undo hb h right hc.right.left
    refine ⟨?_, halike.append (halike'.append (.unused rfl))⟩
    simp only [Expr.renameLocal, Expr.relabel, hleft, hright, title_undo, line_undo]
  | call callee arguments line =>
    obtain ⟨hcallee, halike⟩ := Expr.renameLocal_undo hb h callee hc.left
    obtain ⟨harguments, halike'⟩ := Expr.renameLocalAll_undo hb h arguments hc.right.left
    refine ⟨?_, halike.append (halike'.append (.unused rfl))⟩
    simp only [Expr.renameLocal, Expr.relabel, hcallee, harguments, line_undo]

lemma Expr.renameLocalAll_undo (hb : r.Between x) (h : List.Forall₂ (r.Marks x) origins scopes)
    (values : List Expr) (hc : r.Clear (Expr.eventsAll context (scopes.map (r.undo x).scope) values)) :
    Expr.relabelAll (r.undo x) (Expr.renameLocalAll r origins values) = values ∧
      r.AllAlike x (Expr.eventsAll context scopes (Expr.renameLocalAll r origins values)) := by
  cases values with
  | nil => exact ⟨rfl, .nil⟩
  | cons value rest =>
    obtain ⟨hvalue, halike⟩ := Expr.renameLocal_undo hb h value hc.left
    obtain ⟨hrest, halike'⟩ := Expr.renameLocalAll_undo hb h rest hc.right
    exact ⟨congrArg₂ List.cons hvalue hrest, halike.append halike'⟩

end

lemma Expr.renameLocalOption_undo (hb : r.Between x) (h : List.Forall₂ (r.Marks x) origins scopes)
    (value : Option Expr)
    (hc : r.Clear (Expr.eventsOption context (scopes.map (r.undo x).scope) value)) :
    (value.map (Expr.renameLocal r origins)).map (Expr.relabel (r.undo x)) = value ∧
      r.AllAlike x (Expr.eventsOption context scopes (value.map (Expr.renameLocal r origins))) := by
  cases value with
  | none => exact ⟨rfl, .nil⟩
  | some value =>
    obtain ⟨hvalue, halike⟩ := Expr.renameLocal_undo hb h value hc
    exact ⟨congrArg some hvalue, halike⟩

end Expressions

section Statements

variable {context : Context} {n : Nat} {origins : Origins} {scopes : List Scope}

lemma Renaming.marks_title {name : Name} {isLocal : Bool} {ds : List Declaration} {es : List Event}
    (h : List.Forall₂ (r.Marks x) origins scopes)
    (hf : r.Fits x n (⟨name.text, isLocal, false⟩ :: ds))
    (hc : r.Clear (.declare name (scopes.map (r.undo x).scope) :: es)) :
    List.Forall₂ (r.Marks x) (origins.declare n name) (Scope.introduce name scopes).2 ∧
      (Scope.introduce name scopes).2.map (r.undo x).scope =
        (Scope.introduce name (scopes.map (r.undo x).scope)).2 := by
  obtain ⟨hname, hvariable⟩ := hf.head
  have hn : n ≠ r.number := fun hn => absurd (hvariable hn).2 (by simp)
  have hclean := hc.head.1
  have hmarks := (marks_declare h hname (fun h => absurd h hn) hclean).2
  have hscopes := (declare_scopes hname (fun h => absurd h hn) hclean).2
  rw [declared, if_neg hn] at hmarks hscopes
  exact ⟨hmarks, hscopes⟩

lemma Stmt.scopes_undo (hb : r.Between x) {stated : Stmt} {isLocal : Bool}
    (hf : r.Fits x n (stated.declarations isLocal))
    (hc : r.Clear (stated.events context (scopes.map (r.undo x).scope)))
    (hundo : (stated.renameLocal r n origins).relabel (r.undo x) = stated) :
    ((stated.renameLocal r n origins).resolve context scopes).2.map (r.undo x).scope =
      (stated.resolve context (scopes.map (r.undo x).scope)).2 := by
  have htitles : (r.undo x).KeepsTitles ((stated.renameLocal r n origins).declarations isLocal) := by
    rw [Stmt.declarations_renameLocal]
    exact hf.keepsTitles
  have hafter := (Stmt.events_relabel hb.plain context scopes _ htitles
    (.inr (by rw [hundo]; exact fun event he => (hc event he).1))).2
  rw [hundo] at hafter
  exact hafter.symm

mutual

lemma Stmt.renameLocal_undo (hb : r.Between x) (context : Context) {n : Nat} {origins : Origins}
    {scopes : List Scope} (h : List.Forall₂ (r.Marks x) origins scopes) (stated : Stmt)
    {isLocal : Bool} (hf : r.Fits x n (stated.declarations isLocal))
    (hc : r.Clear (stated.events context (scopes.map (r.undo x).scope))) :
    (stated.renameLocal r n origins).relabel (r.undo x) = stated ∧
      r.AllAlike x ((stated.renameLocal r n origins).events context scopes) ∧
      List.Forall₂ (r.Marks x) (stated.originsAfter n origins)
        ((stated.renameLocal r n origins).resolve context scopes).2 := by
  cases stated with
  | expression value =>
    obtain ⟨hvalue, halike⟩ := Expr.renameLocal_undo hb h value hc
    exact ⟨congrArg Stmt.expression hvalue, halike, h⟩
  | print line value =>
    obtain ⟨hvalue, halike⟩ := Expr.renameLocal_undo hb h value hc
    exact ⟨congrArg (Stmt.print line) hvalue, halike, h⟩
  | varDecl name initial =>
    obtain ⟨hname, hvariable⟩ := hf.head
    have hnumber (hn : n = r.number) : name.text = x := (hvariable hn).1
    have hclean := hc.head.1
    obtain ⟨hdeclare, hdefine⟩ := marks_declare h hname hnumber hclean
    have hinside := hc.tail
    rw [← (declare_scopes hname hnumber hclean).1] at hinside
    obtain ⟨hinitial, halike⟩ := Expr.renameLocalOption_undo hb hdeclare initial hinside
    refine ⟨?_, .cons trivial halike, hdefine⟩
    exact congrArg₂ Stmt.varDecl (named_undo hname hnumber) hinitial
  | functionDecl decl =>
    obtain ⟨hmarks, hscopes⟩ := marks_title h hf hc
    have hinside := hc.tail
    rw [← hscopes] at hinside
    obtain ⟨hdecl, halike⟩ := FunctionDecl.renameLocal_undo hb _ hmarks decl hf.tail hinside
    simp only [Stmt.renameLocal, Stmt.relabel, Stmt.events, Stmt.resolve, Stmt.originsAfter,
      FunctionDecl.name_renameLocal, hdecl]
    exact ⟨trivial, .cons trivial halike, hmarks⟩
  | classDecl decl =>
    obtain ⟨hmarks, hscopes⟩ := marks_title h hf hc
    have hinside := hc.tail
    rw [← hscopes] at hinside
    obtain ⟨hdecl, halike⟩ := ClassDecl.renameLocal_undo hb _ hmarks decl hf.tail hinside
    simp only [Stmt.renameLocal, Stmt.relabel, Stmt.events, Stmt.resolve, Stmt.originsAfter,
      ClassDecl.name_renameLocal, hdecl]
    exact ⟨trivial, .cons trivial halike, hmarks⟩
  | block body =>
    obtain ⟨hbody, halike⟩ := Stmt.renameLocalAll_undo hb context (.cons marks_empty h) body hf hc
    exact ⟨congrArg Stmt.block hbody, halike, h⟩
  | ifElse condition thenBranch elseBranch =>
    cases elseBranch with
    | none =>
      obtain ⟨hcondition, halike⟩ := Expr.renameLocal_undo hb h condition hc.left
      obtain ⟨hthen, halike', hmarks⟩ := Stmt.renameLocal_undo hb context h thenBranch hf hc.right
      refine ⟨?_, halike.append halike', hmarks⟩
      simp only [Stmt.renameLocal, Stmt.relabel, hcondition, hthen]
    | some elseBranch =>
      obtain ⟨hcondition, halike⟩ := Expr.renameLocal_undo hb h condition hc.left
      obtain ⟨hthen, halike', hmarks⟩ :=
        Stmt.renameLocal_undo hb context h thenBranch hf.left hc.right.left
      have hclear := hc.right.right
      rw [← Stmt.scopes_undo hb hf.left hc.right.left hthen] at hclear
      have hfits := hf.right
      rw [Stmt.length_declarations] at hfits
      obtain ⟨helse, halike'', hmarks'⟩ :=
        Stmt.renameLocal_undo hb context hmarks elseBranch hfits hclear
      refine ⟨?_, halike.append (halike'.append halike''), hmarks'⟩
      simp only [Stmt.renameLocal, Stmt.relabel, hcondition, hthen, helse]
  | whileLoop condition body =>
    obtain ⟨hcondition, halike⟩ := Expr.renameLocal_undo hb h condition hc.left
    obtain ⟨hbody, halike', hmarks⟩ := Stmt.renameLocal_undo hb context h body hf hc.right
    exact ⟨congrArg₂ Stmt.whileLoop hcondition hbody, halike.append halike', hmarks⟩
  | ret keyword value =>
    obtain ⟨hvalue, halike⟩ := Expr.renameLocalOption_undo hb h value hc.tail
    exact ⟨congrArg (Stmt.ret keyword) hvalue, .cons trivial halike, h⟩

lemma Stmt.renameLocalAll_undo (hb : r.Between x) (context : Context) {n : Nat} {origins : Origins}
    {scopes : List Scope} (h : List.Forall₂ (r.Marks x) origins scopes) (body : List Stmt)
    {isLocal : Bool} (hf : r.Fits x n (Stmt.declarationsAll isLocal body))
    (hc : r.Clear (Stmt.eventsAll context (scopes.map (r.undo x).scope) body)) :
    Stmt.relabelAll (r.undo x) (Stmt.renameLocalAll r n origins body) = body ∧
      r.AllAlike x (Stmt.eventsAll context scopes (Stmt.renameLocalAll r n origins body)) := by
  cases body with
  | nil => exact ⟨rfl, .nil⟩
  | cons stated rest =>
    obtain ⟨hstated, halike, hmarks⟩ :=
      Stmt.renameLocal_undo hb context h stated hf.left hc.left
    have hclear := hc.right
    rw [← Stmt.scopes_undo hb hf.left hc.left hstated] at hclear
    have hfits := hf.right
    rw [Stmt.length_declarations] at hfits
    obtain ⟨hrest, halike'⟩ := Stmt.renameLocalAll_undo hb context hmarks rest hfits hclear
    exact ⟨congrArg₂ List.cons hstated hrest, halike.append halike'⟩

lemma FunctionDecl.renameLocal_undo (hb : r.Between x) (context : Context) {n : Nat}
    {origins : Origins} {scopes : List Scope} (h : List.Forall₂ (r.Marks x) origins scopes)
    (decl : FunctionDecl) (hf : r.Fits x n decl.declarations)
    (hc : r.Clear (decl.events context (scopes.map (r.undo x).scope))) :
    (decl.renameLocal r n origins).relabel (r.undo x) = decl ∧
      r.AllAlike x ((decl.renameLocal r n origins).events context scopes) := by
  obtain ⟨name, params, body⟩ := decl
  obtain ⟨hparams, hmarks, hscopes⟩ := introductions_undo (.cons marks_empty h) hf.left hc.left
  have hclear := hc.right
  change r.Clear (Stmt.eventsAll context
    (Scope.introduceAll params ((∅ :: scopes).map (r.undo x).scope)).2 body) at hclear
  rw [← hscopes] at hclear
  have hfits := hf.right
  rw [List.length_map] at hfits
  obtain ⟨hbody, halike⟩ := Stmt.renameLocalAll_undo hb context hmarks body hfits hclear
  refine ⟨?_, AllAlike.append (AllAlike.introductions _ _) halike⟩
  simp only [FunctionDecl.renameLocal, FunctionDecl.relabel, hparams, hbody, title_undo]

lemma ClassDecl.renameLocal_undo (hb : r.Between x) (context : Context) {n : Nat}
    {origins : Origins} {scopes : List Scope} (h : List.Forall₂ (r.Marks x) origins scopes)
    (decl : ClassDecl) (hf : r.Fits x n decl.declarations)
    (hc : r.Clear (decl.events context (scopes.map (r.undo x).scope))) :
    (decl.renameLocal r n origins).relabel (r.undo x) = decl ∧
      r.AllAlike x ((decl.renameLocal r n origins).events context scopes) := by
  have hthis := Labels.scope_single ((hb.plain.this Scope.thisName).mpr rfl)
  have hsuper := Labels.scope_single ((hb.plain.super Scope.superName).mpr rfl)
  obtain ⟨name, superclass, methods⟩ := decl
  cases superclass with
  | none =>
    obtain ⟨hmethods, halike⟩ := FunctionDecl.renameLocalMethods_undo hb
      { context with owner := .withoutSuperclass } (.cons (marks_single hb.old.1 hb.new.1) h) methods hf
      (by rw [List.map_cons, hthis]; exact hc)
    exact ⟨congrArg (ClassDecl.mk name none) hmethods, halike⟩
  | some parent =>
    obtain ⟨hmethods, halike⟩ := FunctionDecl.renameLocalMethods_undo hb
      { context with owner := .withSuperclass }
      (.cons (marks_single hb.old.1 hb.new.1) (.cons (marks_single hb.old.2 hb.new.2) h)) methods hf
      (by rw [List.map_cons, List.map_cons, hthis, hsuper]; exact hc.tail.tail)
    have hclear : r.Clear ((Expr.read parent).events context (scopes.map (r.undo x).scope)) :=
      List.forall_mem_singleton.mpr hc.tail.head
    obtain ⟨hparent, hread⟩ := Expr.renameLocal_undo hb h (.read parent) hclear
    refine ⟨?_, .cons trivial (hread.append halike)⟩
    exact congrArg₂ (ClassDecl.mk name <| some ·) (Expr.read.inj hparent) hmethods

lemma FunctionDecl.renameLocalMethods_undo (hb : r.Between x) (context : Context) {n : Nat}
    {origins : Origins} {scopes : List Scope} (h : List.Forall₂ (r.Marks x) origins scopes)
    (methods : List FunctionDecl) (hf : r.Fits x n (FunctionDecl.declarationsAll methods))
    (hc : r.Clear (FunctionDecl.eventsMethods context (scopes.map (r.undo x).scope) methods)) :
    FunctionDecl.relabelAll (r.undo x) (FunctionDecl.renameLocalAll r n origins methods) = methods ∧
      r.AllAlike x (FunctionDecl.eventsMethods context scopes
        (FunctionDecl.renameLocalAll r n origins methods)) := by
  cases methods with
  | nil => exact ⟨rfl, .nil⟩
  | cons method rest =>
    obtain ⟨hmethod, halike⟩ := FunctionDecl.renameLocal_undo hb _ h method hf.left hc.left
    obtain ⟨hrest, halike'⟩ := FunctionDecl.renameLocalMethods_undo hb context h rest hf.right hc.right
    refine ⟨congrArg₂ List.cons hmethod hrest, ?_⟩
    simp only [FunctionDecl.renameLocalAll, FunctionDecl.eventsMethods,
      FunctionDecl.isInitializer_renameLocal]
    exact halike.append halike'

end

end Statements

mutual

lemma Stmt.isPlain_declarations {stated : Stmt} (hp : stated.Proper) {isLocal : Bool}
    {d : Declaration} (hd : d ∈ stated.declarations isLocal) : Scope.IsPlain d.name := by
  cases stated with
  | varDecl name initial =>
    obtain rfl := List.mem_singleton.mp hd
    exact hp.1
  | functionDecl decl =>
    rcases List.mem_cons.mp hd with rfl | hd
    · exact (FunctionDecl.proper_iff.mp hp).1
    · exact FunctionDecl.isPlain_declarations hp hd
  | classDecl decl =>
    obtain ⟨name, superclass, methods⟩ := decl
    rcases List.mem_cons.mp hd with rfl | hd
    · exact hp.1
    · exact FunctionDecl.isPlain_declarationsAll hp.2 hd
  | block body =>
    have hbody : Stmt.ProperAll body := hp
    exact Stmt.isPlain_declarationsAll hbody hd
  | ifElse condition thenBranch elseBranch =>
    cases elseBranch with
    | none =>
      have hthen : thenBranch.Proper := hp.2.2
      exact Stmt.isPlain_declarations hthen hd
    | some elseBranch =>
      rcases List.mem_append.mp hd with hd | hd
      · exact Stmt.isPlain_declarations hp.2.1.2 hd
      · exact Stmt.isPlain_declarations hp.2.2.2 hd
  | whileLoop condition body =>
    have hbody : body.Proper := hp.2.2
    exact Stmt.isPlain_declarations hbody hd
  | expression | print | ret => simp [Stmt.declarations] at hd

lemma Stmt.isPlain_declarationsAll {body : List Stmt} (hp : Stmt.ProperAll body) {isLocal : Bool}
    {d : Declaration} (hd : d ∈ Stmt.declarationsAll isLocal body) : Scope.IsPlain d.name := by
  cases body with
  | nil => simp [Stmt.declarationsAll] at hd
  | cons stated rest =>
    rcases List.mem_append.mp hd with hd | hd
    · exact Stmt.isPlain_declarations hp.1 hd
    · exact Stmt.isPlain_declarationsAll hp.2 hd

lemma FunctionDecl.isPlain_declarations {decl : FunctionDecl} (hp : decl.Proper) {d : Declaration}
    (hd : d ∈ decl.declarations) : Scope.IsPlain d.name := by
  obtain ⟨name, params, body⟩ := decl
  rcases List.mem_append.mp hd with hd | hd
  · obtain ⟨param, hparam, rfl⟩ := List.mem_map.mp hd
    exact hp.2.1 param hparam
  · exact Stmt.isPlain_declarationsAll hp.2.2 hd

lemma FunctionDecl.isPlain_declarationsAll {methods : List FunctionDecl}
    (hp : FunctionDecl.ProperAll methods) {d : Declaration}
    (hd : d ∈ FunctionDecl.declarationsAll methods) : Scope.IsPlain d.name := by
  cases methods with
  | nil => simp [FunctionDecl.declarationsAll] at hd
  | cons method rest =>
    rcases List.mem_append.mp hd with hd | hd
    · exact FunctionDecl.isPlain_declarations hp.1 hd
    · exact FunctionDecl.isPlain_declarationsAll hp.2 hd

end

lemma Program.declarations_renameLocal (program : Program) :
    Program.declarations (program.renameLocal r) = r.declarations 0 (Program.declarations program) :=
  Stmt.declarationsAll_renameLocalAll 0 [] false program

/-- A local variable or parameter `x` of a program without faults, and a name that nothing in it is
declared under or refers to. -/
structure Renaming.Of (r : Renaming) (x : String) (program : Program) : Prop where
  chosen : (Program.declarations program)[r.number]? = some ⟨x, true, true⟩
  plain : Scope.IsPlain r.name
  undeclared : ∀ d ∈ Program.declarations program, d.name ≠ r.name
  unused : ∀ target ∈ Program.references program, target.name.text ≠ r.name

namespace Renaming.Of

variable {program : Program} {distances : List Distance}

lemma between (h : r.Of x program) (hp : Stmt.ProperAll program) : r.Between x where
  old := Stmt.isPlain_declarationsAll hp (List.mem_of_getElem? h.chosen)
  new := h.plain

lemma fits (h : r.Of x program) : r.Fits x 0 (Program.declarations program) := by
  intro i d hd
  refine ⟨h.undeclared d (List.mem_of_getElem? hd), fun hi => ?_⟩
  rw [Nat.zero_add] at hi
  subst hi
  obtain rfl := Option.some.inj (hd.symm.trans h.chosen)
  exact ⟨rfl, rfl⟩

lemma clear (h : r.Of x program) (hr : Program.resolve program = .ok distances) :
    r.Clear (Program.events program) := by
  intro event he
  refine ⟨(Program.resolve_eq_ok_iff.mp hr).1 event he, fun target ht => h.unused target ?_⟩
  exact List.mem_filterMap.mpr ⟨event, he, ht⟩

variable (h : r.Of x program) (hp : Stmt.ProperAll program)
  (hr : Program.resolve program = .ok distances)

include h hp hr

lemma undo : Stmt.relabelAll (r.undo x) (program.renameLocal r) = program :=
  (Stmt.renameLocalAll_undo (h.between hp) ⟨.none, .none⟩ .nil program h.fits (h.clear hr)).1

lemma alike {event : Event} (he : event ∈ Program.events (program.renameLocal r)) :
    event.Alike (r.undo x) :=
  (Stmt.renameLocalAll_undo (h.between hp) ⟨.none, .none⟩ .nil program h.fits (h.clear hr)).2 event he

omit hp hr in
lemma keepsTitles : (r.undo x).KeepsTitles (Program.declarations (program.renameLocal r)) := by
  rw [Program.declarations_renameLocal]
  exact h.fits.keepsTitles

lemma resolve : Program.resolve (program.renameLocal r) = .ok distances := by
  refine Program.resolve_of_relabel (h.between hp).plain h.keepsTitles ?_ fun v hv =>
    (h.alike hp hr hv).1
  rwa [h.undo hp hr]

end Renaming.Of

end Lox
