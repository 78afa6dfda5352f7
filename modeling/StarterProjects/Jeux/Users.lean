import StarterProjects.Jeux.Directory

/-!
# The size of the reply to USERS

The reply is put together line by line, in memory that `realloc` is asked for anew in every turn.
The size asked for is that of the line alone: neither the lines before it nor the NUL behind it
are counted (`users_too_small`).
-/

namespace StarterProjects.Jeux

open Lib Lib.Exec

/-- In every turn there is room for the lines so far, the new line and a NUL. -/
def Roomy (Xs : List Player) : Prop :=
  ∀ before X after, Xs = before ++ X :: after →
    (before.flatMap userLine).length + (userLine X).length + 1 ≤ curLineLen X

/-- There is never room for the NUL. -/
theorem not_roomy {Xs : List Player} (h : Xs ≠ []) : ¬ Roomy Xs := by
  intro hroomy
  obtain ⟨X, after, rfl⟩ := List.exists_cons_of_ne_nil h
  have hfirst := hroomy [] X after rfl
  rw [length_userLine] at hfirst
  omega

/-- For no list of players is there room in every turn, and for none is the reply what it should
be: the first turn already writes behind the end of its memory. -/
theorem users_too_small (storage : Storage) (w : World) (ps : List PlayerPtr) (Xs : List Player)
    (rest : List (Option PlayerPtr))
    (hlive : List.Forall₂ (fun p X => (player p).get w = some X) ps Xs) (hne : ps ≠ [])
    (hnames : ∀ X ∈ Xs, X.playerName.length < NAME_MAX_LENGTH ∧ '\x00' ∉ X.playerName) :
    ¬ Roomy Xs ∧ ¬ Ends (users_text storage (ps.map some ++ none :: rest)).run w fun text _ =>
      text = Xs.flatMap userLine := by
  cases hlive with
  | nil => exact absurd rfl hne
  | @cons p X ps Xs hX hlive =>
    refine ⟨not_roomy (List.cons_ne_nil X Xs), ?_⟩
    rintro ⟨text, w', hrun, -⟩
    obtain ⟨retStr, w₁, hloop, -⟩ := Prog.run_bind_inv hrun
    obtain ⟨buf, w₂, hline, -⟩ := Prog.run_bind_inv hloop
    exact users_line_fails hX (hnames X List.mem_cons_self).2 buf hline

theorem users_too_small_sample :
    ¬ Roomy [Player.created ['a', 'n', 'n']] ∧
      ¬ Ends (users_text zeroed ([0].map some ++ none :: [])).run (lobby [1]) fun text _ =>
        text = [Player.created ['a', 'n', 'n']].flatMap userLine := by
  refine users_too_small zeroed (lobby [1]) [0] [Player.created ['a', 'n', 'n']] []
    (.cons rfl .nil) (List.cons_ne_nil 0 []) ?_
  intro X hX
  obtain rfl := List.mem_singleton.mp hX
  decide

/-- `ann`, a tab, `1500`, a newline and a NUL are ten characters, and `realloc` is asked for
nine. -/
theorem nine_too_few : ¬ (Roomy [Player.created ['a', 'n', 'n']] ∧
    Ends (users_text zeroed [some 0, none]).run (lobby [1]) fun text _ =>
      text = userLine (Player.created ['a', 'n', 'n'])) := by
  rintro ⟨hroomy, -⟩
  have hfirst : 0 + 9 + 1 ≤ 9 := hroomy [] (Player.created ['a', 'n', 'n']) [] rfl
  omega

end StarterProjects.Jeux
