import Rtl.Render.Renderer

namespace Rtl

-- A step in the writing of a unit. It says what it gives or why it stops, and what
-- became of the renderer until then.
abbrev Pass (α : Type) := ExceptT RenderError (StateM Renderer) α

namespace Pass

variable {α β : Type}

-- Asks the renderer for something, which leaves it as it is.
def ask (question : Renderer → Except RenderError α) : Pass α := fun r => (question r, r)

-- Looks something up that is always there.
def look (view : Renderer → α) : Pass α := fun r => (.ok (view r), r)

-- Has the renderer give a name.
def give (name : Renderer → α × Renderer) : Pass α := fun r => (.ok (name r).1, (name r).2)

-- What a pass comes to if the renderer does not matter after an error.
def outcome (p : Pass α) (r : Renderer) : Except RenderError (α × Renderer) :=
  match p r with
  | (.ok a, t) => .ok (a, t)
  | (.error cause, _) => .error cause

variable {p : Pass α} {q : α → Pass β} {r t : Renderer} {a : α}

theorem outcome_eq_ok : p.outcome r = .ok (a, t) ↔ p r = (.ok a, t) := by
  rw [outcome]
  generalize p r = result
  obtain ⟨cause | b, u⟩ := result
  · exact ⟨nofun, fun h => nomatch congrArg Prod.fst h⟩
  · constructor
    · intro h
      obtain ⟨rfl, rfl⟩ := Prod.mk.inj (Except.ok.inj h)
      rfl
    · intro h
      obtain ⟨hb, rfl⟩ := Prod.mk.inj h
      rw [Except.ok.inj hb]

theorem fst_eq_outcome (p : Pass α) (r : Renderer) : (p r).1 = Prod.fst <$> p.outcome r := by
  rw [outcome]
  rcases p r with ⟨cause | b, u⟩ <;> rfl

theorem run_bind (p : Pass α) (q : α → Pass β) (r : Renderer) :
    (p >>= q) r = match p r with
      | (.ok a, t) => q a t
      | (.error cause, t) => (.error cause, t) := by
  change ExceptT.bindCont q (p r).1 (p r).2 = _
  rcases p r with ⟨cause | a, t⟩ <;> rfl

theorem run_ask_bind (question : Renderer → Except RenderError α) (q : α → Pass β)
    (r : Renderer) : (ask question >>= q) r = match question r with
      | .ok a => q a r
      | .error cause => (.error cause, r) := by
  rw [run_bind, ask]
  cases question r <;> rfl

theorem run_look_bind (view : Renderer → α) (q : α → Pass β) (r : Renderer) :
    (look view >>= q) r = q (view r) r := rfl

theorem run_give_bind (name : Renderer → α × Renderer) (q : α → Pass β) (r : Renderer) :
    (give name >>= q) r = q (name r).1 (name r).2 := rfl

theorem outcome_ask (question : Renderer → Except RenderError α) (r : Renderer) :
    (ask question).outcome r = question r >>= fun a => .ok (a, r) := by
  rw [outcome, ask]
  cases question r <;> rfl

theorem outcome_bind (p : Pass α) (q : α → Pass β) (r : Renderer) :
    (p >>= q).outcome r = p.outcome r >>= fun named => (q named.1).outcome named.2 := by
  rw [outcome, run_bind, outcome]
  rcases p r with ⟨cause | a, t⟩ <;> rfl

theorem outcome_ask_bind (question : Renderer → Except RenderError α) (q : α → Pass β)
    (r : Renderer) :
    (ask question >>= q).outcome r = question r >>= fun a => (q a).outcome r := by
  rw [outcome, run_ask_bind]
  cases question r <;> rfl

theorem outcome_look_bind (view : Renderer → α) (q : α → Pass β) (r : Renderer) :
    (look view >>= q).outcome r = (q (view r)).outcome r := rfl

theorem outcome_give_bind (name : Renderer → α × Renderer) (q : α → Pass β) (r : Renderer) :
    (give name >>= q).outcome r = (q (name r).1).outcome (name r).2 := rfl

end Pass

end Rtl
