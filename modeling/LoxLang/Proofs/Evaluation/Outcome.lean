import LoxLang.Evaluator
import LoxLang.Proofs.Outcome

/-!
The outcome of what the evaluator hands to another computation: code that runs in another scope, and native
functions, whose faults get the place of the call.
-/

namespace LoxLang

variable {α β : Type} {m n : Machine}

namespace Ends

variable {value : α → Machine → Prop} {fault : Halt → Machine → Prop}

/-- A computation in another scope ends as it does there, with the scope in front put back. -/
theorem inFrame {x : Exec α} {frame : FrameId}
    (h : Ends x { m with current := frame } (fun a m' => value a { m' with current := m.current })
      fun e m' => fault e { m' with current := m.current }) :
    Ends (Exec.inFrame frame x) m value fault := by
  unfold Ends Exec.inFrame at *
  dsimp only [EStateM.run] at h ⊢
  cases hrun : x { m with current := frame } with
  | ok a m' =>
    rw [hrun] at h
    exact h
  | error e m' =>
    rw [hrun] at h
    exact h

/-- A computation in a new scope ends as it does there. -/
theorem newScope {x : Exec α} {parent : FrameId} {bindings : Bindings Value}
    (h : Ends x { m with
        heap := (m.heap.newFrame (some parent) bindings).2
        current := (m.heap.newFrame (some parent) bindings).1 }
      (fun a m' => value a { m' with current := m.current })
      fun e m' => fault e { m' with current := m.current }) :
    Ends (Exec.newFrame parent bindings >>= fun frame => Exec.inFrame frame x) m value fault := by
  have hinside : Ends (Exec.inFrame (m.heap.newFrame (some parent) bindings).1 x)
      { m with heap := (m.heap.newFrame (some parent) bindings).2 } value fault := .inFrame h
  exact hinside

/-- A native function ends as it does by itself, with its fault at the call. -/
theorem callNative {value : Value → Machine → Prop} {f : Native} {vs : List Value} {p : Position}
    (h : Ends (f.run vs) m value fun e m' => fault (.failed ⟨p, .runtime (.native e), none⟩) m') :
    Ends (Exec.callNative f vs p) m value fault := by
  unfold Ends Exec.callNative at *
  dsimp only [EStateM.run] at h ⊢
  cases hrun : f.run vs m with
  | ok v m' =>
    rw [hrun] at h
    exact h
  | error e m' =>
    rw [hrun] at h
    exact h

end Ends

namespace Agree

variable {value : α → Machine → β → Machine → Prop} {fault : Halt → Machine → Halt → Machine → Prop}

/-- Computations in other scopes agree as they do there, with the scopes in front put back. -/
theorem inFrame {x : Exec α} {y : Exec β} {frame frame' : FrameId}
    (h : Agree x y { m with current := frame } { n with current := frame' }
      (fun a m' b n' => value a { m' with current := m.current } b { n' with current := n.current })
      fun e m' e' n' => fault e { m' with current := m.current } e' { n' with current := n.current }) :
    Agree (Exec.inFrame frame x) (Exec.inFrame frame' y) m n value fault := by
  have hruns := h.runs
  unfold Agree Exec.inFrame
  dsimp only [EStateM.run] at hruns ⊢
  obtain ⟨a, m', b, n', hx, hy, h⟩ | ⟨e, m', e', n', hx, hy, h⟩ := hruns
  · rw [hx, hy]
    exact h
  · rw [hx, hy]
    exact h

/-- Native functions agree as they do by themselves, with their faults at the calls. -/
theorem callNative {value : Value → Machine → Value → Machine → Prop} {f g : Native} {vs ws : List Value}
    {p q : Position}
    (h : Agree (f.run vs) (g.run ws) m n value fun e m' e' n' =>
      fault (.failed ⟨p, .runtime (.native e), none⟩) m' (.failed ⟨q, .runtime (.native e'), none⟩) n') :
    Agree (Exec.callNative f vs p) (Exec.callNative g ws q) m n value fault := by
  have hruns := h.runs
  unfold Agree Exec.callNative
  dsimp only [EStateM.run] at hruns ⊢
  obtain ⟨v, m', w, n', hx, hy, h⟩ | ⟨e, m', e', n', hx, hy, h⟩ := hruns
  · rw [hx, hy]
    exact h
  · rw [hx, hy]
    exact h

end Agree

end LoxLang
