import Lox.Proofs.Direct.Ties
import Lox.Proofs.Matching

/-! Steps of a direct run beside those of a watched one, and what they keep of the ties between the two. -/

namespace Lox.Direct

namespace Tied

variable {home home' : List FrameRef} {w : Watch} {s : State}

/-- No function or class is made. -/
lemma step (h : Tied home w s) (hle : home <+: home') {m : Machine} {s' : State}
    (hfunctions : m.functions = w.machine.functions) (hclasses : m.classes = w.machine.classes)
    (hfunctions' : s'.functions = s.functions) (hclasses' : s'.classes = s.classes)
    (hframes : Mirrors home' m.frames s'.frames) (hinstances : s'.instances = m.instances)
    (houtput : s'.output = m.output) (hclock : s'.clock = m.clock) :
    Tied home' { w with machine := m } s' where
  frames := hframes
  sizeFunctions := by rw [hfunctions, hfunctions', h.sizeFunctions]
  sizeClasses := by rw [hclasses, hclasses', h.sizeClasses]
  functions i closure site own hc hsite hown := by
    rw [hfunctions] at hc
    rw [hfunctions'] at hown
    exact (h.functions i closure site own hc hsite hown).mono hle
  classes i type site own ht hsite hown := by
    rw [hclasses] at ht
    rw [hclasses'] at hown
    exact (h.classes i type site own ht hsite hown).mono hle
  instances := hinstances
  output := houtput
  clock := hclock

lemma withFrames (h : Tied home w s) (hle : home <+: home') {f : Frames}
    {frames : Array (Bindings Value)} (hframes : Mirrors home' f frames) :
    Tied home' { w with machine.frames := f } { s with frames } :=
  h.step hle rfl rfl rfl rfl hframes h.instances h.output h.clock

lemma setCurrent (h : Tied home w s) (frame : FrameRef) :
    Tied home { w with machine.current := frame } s :=
  h.step (List.prefix_refl _) rfl rfl rfl rfl h.frames h.instances h.output h.clock

lemma journal (h : Tied home w s) (moments assignments : List Moment) :
    Tied home { w with journal := { w.journal with moments, assignments } } s :=
  ⟨h.frames, h.sizeFunctions, h.sizeClasses, h.functions, h.classes, h.instances, h.output, h.clock⟩

lemma newFunction (h : Tied home w s) {programs : List Lox.Program} (hs : Sound programs w)
    {closure : Lox.Closure} {site : Site} {own : Closure} (hstands : own.Stands home closure site) :
    Tied home
      { machine := { w.machine with functions := w.machine.functions.push closure }
        journal := { w.journal with functions := w.journal.functions.push site } }
      { s with functions := s.functions.push own } :=
  { h with
    sizeFunctions := by simp [h.sizeFunctions]
    functions := by
      intro i closure' site' own' hc hsite hown
      have hjournal := hs.sizeFunctions
      have hstate := h.sizeFunctions
      rcases Sound.getElem?_push_eq_some hc with ⟨hi, rfl⟩ | ⟨hi, hc⟩ <;>
        rcases Sound.getElem?_push_eq_some hsite with ⟨hj, rfl⟩ | ⟨hj, hsite⟩ <;>
        rcases Sound.getElem?_push_eq_some hown with ⟨hk, rfl⟩ | ⟨hk, hown⟩ <;>
        first | omega | exact hstands | exact h.functions i _ _ _ hc hsite hown }

lemma newClass (h : Tied home w s) {programs : List Lox.Program} (hs : Sound programs w)
    {type : Lox.Class} {site : ClassSite} {own : Class} (hstands : own.Stands home type site) :
    Tied home
      { machine := { w.machine with classes := w.machine.classes.push type }
        journal := { w.journal with classes := w.journal.classes.push site } }
      { s with classes := s.classes.push own } :=
  { h with
    sizeClasses := by simp [h.sizeClasses]
    classes := by
      intro i type' site' own' ht hsite hown
      have hjournal := hs.sizeClasses
      have hstate := h.sizeClasses
      rcases Sound.getElem?_push_eq_some ht with ⟨hi, rfl⟩ | ⟨hi, ht⟩ <;>
        rcases Sound.getElem?_push_eq_some hsite with ⟨hj, rfl⟩ | ⟨hj, hsite⟩ <;>
        rcases Sound.getElem?_push_eq_some hown with ⟨hk, rfl⟩ | ⟨hk, hown⟩ <;>
        first | omega | exact hstands | exact h.classes i _ _ _ ht hsite hown }

lemma lookup?_eq (h : Tied home w s) {ref frame : FrameRef} (hi : home[ref.index]? = some frame)
    (name : String) : s.lookup? ref name = w.machine.frames.lookup? frame name :=
  (h.frames.lookup?_eq hi name).symm

section Names

variable {exact : Bool} {scopes : List Scope} {frames : List FrameRef} {env : Env} {target : Reference}

/-- The table leads to the home of the frame that the levels lead to. -/
lemma binder?_eq (h : Tied home w s) (hroot : w.machine.frames.enclosing? .globals = none)
    (hfollows : env.Follows home exact scopes frames)
    (houtward : ∀ distance, w.machine.frames.ancestor? w.machine.current distance =
      (frames ++ [.globals])[distance]?)
    (hentry : w.machine.table[target.id]? = scopes.findIdx? (·.contains target.name.text)) :
    ∃ frame, home[(env.frameOf target.name.text).index]? = some frame ∧
      w.machine.binder? target =
        if w.machine.frames.binds frame target.name.text then some frame else none := by
  obtain ⟨frame, hhome, hfound⟩ := hfollows.find h.frames.globals target.name.text
  refine ⟨frame, hhome, ?_⟩
  rw [Machine.binder?, hentry]
  cases hidx : scopes.findIdx? (·.contains target.name.text) with
  | some distance =>
    rw [hidx] at hfound
    have hlt := (List.getElem?_eq_some_iff.mp hfound).1
    simp only [Frames.binderAt?, houtward, List.getElem?_append_left hlt, hfound, Option.filter_some]
  | none =>
    rw [hidx] at hfound
    obtain rfl := hfound
    change (if w.machine.frames.binds .globals target.name.text then some FrameRef.globals
      else (w.machine.frames.enclosing? .globals).bind _) = _
    rw [hroot]
    rfl

lemma find?_eq (h : Tied home w s) (hroot : w.machine.frames.enclosing? .globals = none)
    (hfollows : env.Follows home exact scopes frames)
    (houtward : ∀ distance, w.machine.frames.ancestor? w.machine.current distance =
      (frames ++ [.globals])[distance]?)
    (hentry : w.machine.table[target.id]? = scopes.findIdx? (·.contains target.name.text)) :
    s.find? env target.name.text = w.machine.read? target := by
  obtain ⟨frame, hhome, hbinder⟩ := h.binder?_eq hroot hfollows houtward hentry
  rw [State.find?, h.lookup?_eq hhome, Machine.read?, hbinder]
  cases hlookup : w.machine.frames.lookup? frame target.name.text <;> simp [Frames.binds, hlookup]

lemma find?_at (h : Tied home w s) (hfollows : env.Follows home exact scopes frames)
    (houtward : ∀ distance, w.machine.frames.ancestor? w.machine.current distance =
      (frames ++ [.globals])[distance]?)
    {name : String} {distance : Nat} (hidx : scopes.findIdx? (·.contains name) = some distance) :
    s.find? env name = w.machine.frames.findAt? w.machine.current distance name := by
  obtain ⟨frame, hhome, hfound⟩ := hfollows.find h.frames.globals name
  rw [hidx] at hfound
  have hlt := (List.getElem?_eq_some_iff.mp hfound).1
  rw [State.find?, h.lookup?_eq hhome, Frames.findAt?, houtward, List.getElem?_append_left hlt, hfound,
    Option.bind_some]

end Names

end Tied

/-- The direct run does as the watched one, and the state stays tied to the machine. -/
def Imitates {α : Type} (home : List FrameRef) (w : Watch) (s : State) (x : WatchedRun α) (y : Run α) :
    Prop :=
  Matches (fun w' s' => ∃ home', home <+: home' ∧ Tied home' w' s') id w s x y id

section Rules

lemma lift_bind {α β : Type} (x : Lox.Run α) (f : α → Lox.Run β) :
    WatchedRun.lift (x >>= f) = WatchedRun.lift x >>= fun a => WatchedRun.lift (f a) := by
  funext w
  change outcome (WatchedRun.lift (x >>= f)) w = outcome (WatchedRun.lift x >>= _) w
  rw [WatchedRun.outcome_lift, outcome_bind, outcome_bind, WatchedRun.outcome_lift]
  rcases outcome x w.machine with ⟨_ | a, m⟩ <;> rfl

variable {α β γ : Type} {programs : List Lox.Program} {free : Option FrameRef} {home home' : List FrameRef}
  {w : Watch} {s s' : State} {x : WatchedRun α} {y : Run α}

lemma Imitates.mono (h : Imitates home' w s x y) (hle : home <+: home') : Imitates home w s x y := by
  obtain ⟨home'', hle', htied⟩ := h.states
  exact ⟨h.result, home'', hle.trans hle', htied⟩

lemma imitates_pure (h : Tied home w s) (a : α) : Imitates home w s (pure a) (pure a) :=
  matches_pure ⟨home, List.prefix_refl _, h⟩ rfl

lemma imitates_throw (h : Tied home w s) (halt : Halt) :
    Imitates home w s (throw halt : WatchedRun α) (throw halt) :=
  matches_throw id ⟨home, List.prefix_refl _, h⟩ rfl

lemma imitates_fail (h : Tied home w s) (cause : RuntimeError.Cause) (line : Nat) :
    Imitates home w s (WatchedRun.lift (Lox.Run.fail cause line) : WatchedRun α)
      (Run.fail cause line) :=
  imitates_throw h _

lemma Imitates.andThen {f : α → WatchedRun β} {g : α → Run β} (h : Imitates home w s x y)
    (hf : ∀ a home' w' s', home <+: home' → Tied home' w' s' → Imitates home' w' s' (f a) (g a)) :
    Imitates home w s (x >>= f) (y >>= g) := by
  refine Matches.bind h fun a w' s' _ hstates => ?_
  obtain ⟨home', hle, htied⟩ := hstates
  exact (hf a home' w' s' hle htied).mono hle

/-- What comes after a part of the run knows what is so of the watch. -/
lemma Imitates.bind {f : α → WatchedRun β} {g : α → Run β} {post : α → Watch → Prop}
    (h : Imitates home w s x y) (hs : WatchedRun.Safe programs free w x post)
    (hf : ∀ a home' w' s', home <+: home' → Advances programs free w w' → post a w' →
      Tied home' w' s' → Imitates home' w' s' (f a) (g a)) :
    Imitates home w s (x >>= f) (y >>= g) := by
  refine Matches.bind h fun a w' s' hx hstates => ?_
  obtain ⟨home', hle, htied⟩ := hstates
  obtain ⟨hadvances, hpost⟩ := hs
  rw [hx] at hadvances hpost
  exact (hf a home' w' s' hle hadvances (hpost a rfl) htied).mono hle

lemma Imitates.yield {f : α → β} (h : Imitates home w s x y) :
    Imitates home w s (x >>= fun a => pure (f a)) (y >>= fun a => pure (f a)) :=
  h.andThen fun _ _ _ _ _ htied => imitates_pure htied _

lemma imitates_lift {x : Lox.Run α} {y : Run α} {result : Except Halt α} {m : Machine}
    (hx : outcome x w.machine = (result, m)) (hy : outcome y s = (result, s')) (hle : home <+: home')
    (h : Tied home' { w with machine := m } s') : Imitates home w s (WatchedRun.lift x) y := by
  constructor <;> rw [WatchedRun.outcome_lift, hx, hy]
  · rcases result with _ | _ <;> rfl
  · exact ⟨home', hle, h⟩

lemma imitates_lift_bind {x : Lox.Run α} {y : Run β} {a : α} {b : β} {m : Machine}
    (hx : outcome x w.machine = (.ok a, m)) (hy : outcome y s = (.ok b, s')) (hle : home <+: home')
    {f : α → WatchedRun γ} {g : β → Run γ}
    (h : Imitates home' { w with machine := m } s' (f a) (g b)) :
    Imitates home w s (WatchedRun.lift x >>= f) (y >>= g) := by
  obtain ⟨hresult, hstates⟩ := h.mono hle
  constructor <;> rw [outcome_bind, outcome_bind, WatchedRun.outcome_lift, hx, hy]
  · exact hresult
  · exact hstates

lemma imitates_left {x : Lox.Run α} {y : Run γ} {a : α} {m : Machine}
    (hx : outcome x w.machine = (.ok a, m)) {f : α → WatchedRun γ}
    (h : Imitates home { w with machine := m } s (f a) y) :
    Imitates home w s (WatchedRun.lift x >>= f) y := by
  obtain ⟨hresult, hstates⟩ := h
  constructor <;> rw [outcome_bind, WatchedRun.outcome_lift, hx]
  · exact hresult
  · exact hstates

lemma imitates_get {f : Watch → WatchedRun α} {g : State → Run α} (h : Imitates home w s (f w) (g s)) :
    Imitates home w s (get >>= f) (get >>= g) :=
  matches_get h

lemma imitates_require (h : Tied home w s) {r : α → β → Prop} {found : Option α} {own : Option β}
    (hr : Option.Rel r found own) {cause : RuntimeError.Cause} {line : Nat} {f : α → WatchedRun γ}
    {g : β → Run γ} (hf : ∀ a b, found = some a → r a b → Imitates home w s (f a) (g b)) :
    Imitates home w s (WatchedRun.lift (Lox.Run.require found cause line) >>= f)
      (Run.require own cause line >>= g) := by
  cases hr with
  | some hab => exact hf _ _ rfl hab
  | none => exact imitates_throw h _

lemma Imitates.ite {p : Prop} [Decidable p] {x' : WatchedRun α} {y' : Run α}
    (ht : p → Imitates home w s x y) (hf : ¬ p → Imitates home w s x' y') :
    Imitates home w s (if p then x else x') (if p then y else y') :=
  Matches.ite ht hf

/-- The current frame of the machine has no counterpart. -/
lemma imitates_within {frame : FrameRef}
    (h : Imitates home { w with machine.current := frame } s x y) :
    Imitates home w s (WatchedRun.within frame x) y := by
  obtain ⟨hresult, home', hle, htied⟩ := h
  exact ⟨hresult, home', hle, htied.setCurrent _⟩

lemma Imitates.noted {node : Expr} {site : Site}
    (h : Imitates home { w with journal.moments := ⟨node, site, w.machine⟩ :: w.journal.moments } s
      x y) :
    Imitates home w s (WatchedRun.note node site >>= fun _ => x) y :=
  ⟨h.result, h.states⟩

lemma Imitates.notedAssignment {node : Expr} {site : Site}
    (h : Imitates home
      { w with journal.assignments := ⟨node, site, w.machine⟩ :: w.journal.assignments } s x y) :
    Imitates home w s (WatchedRun.noteAssignment node site >>= fun _ => x) y :=
  ⟨h.result, h.states⟩

/-- Each makes a frame for a scope: the one of the machine is the home of the other. -/
lemma imitates_newFrame {enclosing : FrameRef} {bindings : Bindings Value} (h : Tied home w s)
    {f : FrameRef → WatchedRun α} {g : FrameRef → Run α}
    (hf : Tied (home ++ [w.machine.frames.next])
        { w with machine.frames := w.machine.frames.push enclosing bindings }
        { s with frames := s.frames.push bindings } →
      (home ++ [w.machine.frames.next])[s.frames.size]? = some w.machine.frames.next →
      Imitates (home ++ [w.machine.frames.next])
        { w with machine.frames := w.machine.frames.push enclosing bindings }
        { s with frames := s.frames.push bindings } (f w.machine.frames.next) (g ⟨s.frames.size⟩)) :
    Imitates home w s (WatchedRun.lift (Lox.Run.newFrame enclosing bindings) >>= f)
      (Run.newFrame bindings >>= g) := by
  have hle : home <+: home ++ [w.machine.frames.next] := List.prefix_append ..
  have hown : outcome (Run.newFrame bindings) s =
      (.ok ⟨s.frames.size⟩, { s with frames := s.frames.push bindings }) := rfl
  refine imitates_lift_bind (Run.outcome_newFrame ..) hown hle (hf ?_ ?_)
  · exact h.withFrames hle (h.frames.push enclosing bindings)
  · rw [← h.frames.length, List.getElem?_concat_length]

lemma imitates_define (h : Tied home w s) {frame ref : FrameRef} (hi : home[ref.index]? = some frame)
    (name : String) (value : Value) :
    Imitates home w s (WatchedRun.lift (Lox.Run.define frame name value)) (Run.define ref name value) :=
  imitates_lift (Run.outcome_define ..) rfl (List.prefix_refl _)
    (h.withFrames (List.prefix_refl _) (h.frames.define hi name value))

end Rules

end Lox.Direct
