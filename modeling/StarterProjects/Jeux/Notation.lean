import StarterProjects.Jeux.Server
import StarterProjects.Jeux.Turns
import Mathlib.Tactic.IntervalCases

/-!
# Moves in writing

A move is written as the digit of its cell, alone or with the mark of a player: `5`, `5<-X`,
`5<-O`. The parser looks at the first character, and at the fourth one when there are four. So
whatever begins with a digit is taken for a move: `game_parse_move_iff` says for which strings the
answer is right, and when a printed move is read back.
-/

namespace StarterProjects.Jeux

open Lib

/-- A move in writing. `usable` is the size of the block that `malloc` returns for a request, and
`storage` what a fresh block holds as a string. The block is requested without room for the NUL. -/
def game_unparse_move (usable : Nat → Nat) (storage : CString) (move : GameMove) :
    Option CString :=
  let intContainer := decimal move.boardIndex
  if intContainer.length < 10 then
    let curLineLen := intContainer.length + "<-X".length
    let print := fun text : CString => if text.length < usable curLineLen then some text else none
    match move.curPlayer with
    | .firstPlayerRole => print (intContainer ++ "<-X".toList)
    | .secondPlayerRole => print (intContainer ++ "<-O".toList)
    | _ => some storage
  else none

/-! ## The grammar -/

/-- A cell, and the player whose mark is named with it. -/
def written (cell : Nat) : Option GameRole → CString
  | none => [Nat.digitChar cell]
  | some player => [Nat.digitChar cell, '<', '-', Game.mark player]

def IsCell (cell : Nat) : Prop := 1 ≤ cell ∧ cell ≤ 9

/-- `str` is a well written move that the role may make. -/
def WellWritten (role : GameRole) (str : CString) : Prop :=
  ∃ cell named, IsCell cell ∧ (∀ player ∈ named, player.IsPlayer) ∧ str = written cell named ∧
    (role = .nullRole ∨ ∀ player ∈ named, player = role)

/-- The string means the move, with `curRole` to move. -/
def Means (role curRole : GameRole) (str : CString) (move : GameMove) : Prop :=
  ∃ cell named, IsCell cell ∧ (∀ player ∈ named, player.IsPlayer) ∧ str = written cell named ∧
    move = ⟨cell, named.getD curRole⟩ ∧
    (role ≠ .nullRole → curRole = role ∧ ∀ player ∈ named, player = role)

/-- The parser gets as far as the digit, and the digit is one. -/
def BeginsMove (role curRole : GameRole) (str : CString) : Prop :=
  (role = .nullRole ∨ curRole = role) ∧ ∃ cell, IsCell cell ∧ str.head? = some (Nat.digitChar cell)

/-! ## The parser on the two forms -/

theorem digitChar_toNat {cell : Nat} (h : cell ≤ 9) : (Nat.digitChar cell).toNat = 48 + cell := by
  interval_cases cell <;> rfl

theorem head?_written (cell : Nat) (named : Option GameRole) :
    (written cell named).head? = some (Nat.digitChar cell) := by
  cases named <;> rfl

theorem leadingDigit_of_head {str : CString} {cell : Nat} (hcell : IsCell cell)
    (h : str.head? = some (Nat.digitChar cell)) : leadingDigit str = cell := by
  rw [leadingDigit, h, Option.getD_some, digitChar_toNat hcell.2]
  omega

/-- The digit of the parser is one from 1 to 9 when the string begins with its character. -/
theorem leadingDigit_iff (str : CString) : 1 ≤ leadingDigit str ∧ leadingDigit str ≤ 9 ↔
    ∃ cell, IsCell cell ∧ str.head? = some (Nat.digitChar cell) := by
  constructor
  · rintro ⟨hlow, hhigh⟩
    cases hhead : str.head? with
    | none =>
        rw [leadingDigit, hhead] at hlow
        exact absurd hlow (by decide)
    | some c =>
        rw [leadingDigit, hhead, Option.getD_some] at hlow hhigh
        refine ⟨c.toNat - 48, ⟨by omega, by omega⟩, congrArg some (Char.toNat_inj.mp ?_)⟩
        rw [digitChar_toNat (by omega)]
        omega
  · rintro ⟨cell, hcell, hhead⟩
    rw [leadingDigit_of_head hcell hhead]
    exact ⟨by exact_mod_cast hcell.1, by exact_mod_cast hcell.2⟩

theorem parsed_eq (role : GameRole) (str : CString) (G : Game) : G.parsed role str =
    if (role = .nullRole ∨ G.curRole = role) ∧ 1 ≤ leadingDigit str ∧ leadingDigit str ≤ 9 then
      some ⟨leadingDigit str, namedRole G.curRole str⟩ else none := by
  unfold Game.parsed
  by_cases hrole : role = .nullRole ∨ G.curRole = role
  · have hnot : ¬ (role ≠ .nullRole ∧ G.curRole ≠ role) := fun h => hrole.elim h.1 h.2
    rw [if_neg hnot]
    by_cases hdigit : leadingDigit str > 9 ∨ leadingDigit str < 1
    · rw [if_pos hdigit, if_neg (by omega)]
    · rw [if_neg hdigit, if_pos ⟨hrole, by omega, by omega⟩]
  · rw [if_pos (not_or.mp hrole), if_neg fun h => hrole h.1]

theorem namedRole_written (curRole : GameRole) (cell : Nat) {named : Option GameRole}
    (h : ∀ player ∈ named, player.IsPlayer) :
    namedRole curRole (written cell named) = named.getD curRole := by
  cases named with
  | none => rfl
  | some player =>
      rcases h player rfl with rfl | rfl
      · rfl
      · rfl

theorem parsed_some_iff (role : GameRole) (str : CString) (G : Game) (move : GameMove) :
    G.parsed role str = some move ↔ BeginsMove role G.curRole str ∧
      move = ⟨leadingDigit str, namedRole G.curRole str⟩ := by
  rw [parsed_eq, Option.ite_none_right_eq_some, BeginsMove, ← leadingDigit_iff, Option.some.injEq]
  exact and_congr_right fun _ => eq_comm

/-- A meant move is the one the parser finds. -/
theorem Means.found {role curRole : GameRole} {str : CString} {move : GameMove}
    (h : Means role curRole str move) : BeginsMove role curRole str ∧
      move = ⟨leadingDigit str, namedRole curRole str⟩ := by
  obtain ⟨cell, named, hcell, hnamed, rfl, rfl, hrole⟩ := h
  have hhead := head?_written cell named
  refine ⟨⟨?_, cell, hcell, hhead⟩, ?_⟩
  · by_cases hnull : role = .nullRole
    · exact Or.inl hnull
    · exact Or.inr (hrole hnull).1
  · rw [leadingDigit_of_head hcell hhead, namedRole_written curRole cell hnamed]

theorem means_of_wellWritten {role curRole : GameRole} {str : CString}
    (h : WellWritten role str) (hrole : role = .nullRole ∨ curRole = role) :
    Means role curRole str ⟨leadingDigit str, namedRole curRole str⟩ := by
  obtain ⟨cell, named, hcell, hnamed, rfl, hown⟩ := h
  refine ⟨cell, named, hcell, hnamed, rfl, ?_, fun hnull => ?_⟩
  · rw [leadingDigit_of_head hcell (head?_written cell named),
      namedRole_written curRole cell hnamed]
  · exact ⟨hrole.resolve_left hnull, hown.resolve_left hnull⟩

theorem parsed_right_iff (role : GameRole) (str : CString) (G : Game) :
    (∀ move, G.parsed role str = some move ↔ Means role G.curRole str move) ↔
      (BeginsMove role G.curRole str → WellWritten role str) := by
  simp only [parsed_some_iff]
  constructor
  · intro hright hbegins
    obtain ⟨cell, named, hcell, hnamed, hstr, -, hrole⟩ := (hright _).mp ⟨hbegins, rfl⟩
    refine ⟨cell, named, hcell, hnamed, hstr, ?_⟩
    by_cases hnull : role = .nullRole
    · exact Or.inl hnull
    · exact Or.inr (hrole hnull).2
  · intro hwell move
    constructor
    · rintro ⟨hbegins, rfl⟩
      exact means_of_wellWritten (hwell hbegins) hbegins.1
    · exact Means.found

/-! ## Printing -/

theorem decimal_cell {cell : Nat} (h : IsCell cell) :
    decimal (cell : Int) = [Nat.digitChar cell] := by
  obtain ⟨hlow, hhigh⟩ := h
  interval_cases cell <;> rfl

/-- A move of a player is printed in the form with the mark, where the block has room for the
NUL. -/
theorem game_unparse_move_eq (usable : Nat → Nat) (storage : CString) {cell : Nat}
    {player : GameRole} (hcell : IsCell cell) (hplayer : player.IsPlayer) :
    game_unparse_move usable storage ⟨cell, player⟩ =
      if 4 < usable 4 then some (written cell (some player)) else none := by
  unfold game_unparse_move
  rw [decimal_cell hcell]
  rcases hplayer with rfl | rfl
  · rfl
  · rfl

section Runs

variable {g : GamePtr} {w : World} {G : Game}

/-- The parser answers rightly exactly on what does not begin like a move that the role may make,
or is one. A printed move is read back exactly where the block of 4 bytes has room for the NUL. -/
theorem game_parse_move_iff (role : GameRole) (str : CString) (h : (game g).get w = some G)
    (hl : G.gameLock = 1) :
    (∃ res, (game_parse_move g role str).run w = .ok (res, w) ∧
      ((∀ move, res = some move ↔ Means role G.curRole str move) ↔
        (BeginsMove role G.curRole str → WellWritten role str))) ∧
    ∀ (usable : Nat → Nat) (storage : CString) (cell : Nat) (player : GameRole), IsCell cell →
      player.IsPlayer →
      ((∃ text, game_unparse_move usable storage ⟨cell, player⟩ = some text ∧
        (game_parse_move g .nullRole text).run w = .ok (some ⟨cell, player⟩, w)) ↔
          4 < usable 4) := by
  refine ⟨⟨_, game_parse_move_run role str h hl, parsed_right_iff role str G⟩, ?_⟩
  intro usable storage cell player hcell hplayer
  rw [game_unparse_move_eq usable storage hcell hplayer]
  constructor
  · rintro ⟨text, htext, -⟩
    by_contra hroom
    rw [if_neg hroom] at htext
    exact absurd htext (by simp)
  · intro hroom
    refine ⟨_, if_pos hroom, ?_⟩
    have hnamed : ∀ p ∈ some player, p.IsPlayer := by simpa using hplayer
    have hmeans : Means .nullRole G.curRole (written cell (some player)) ⟨cell, player⟩ :=
      ⟨cell, some player, hcell, hnamed, rfl, rfl, fun hnull => absurd rfl hnull⟩
    rw [game_parse_move_run _ _ h hl, (parsed_some_iff _ _ G _).mpr hmeans.found]

end Runs

/-- A move with a mark on a new game. -/
theorem game_parse_move_created :
    Exec.Ends game_create.run (World.initial fun _ => 0) fun g w =>
      (∃ res, (game_parse_move g .nullRole "5<-O".toList).run w = .ok (res, w) ∧
        ((∀ move, res = some move ↔ Means .nullRole .firstPlayerRole "5<-O".toList move) ↔
          (BeginsMove .nullRole .firstPlayerRole "5<-O".toList →
            WellWritten .nullRole "5<-O".toList))) ∧
      ∀ (usable : Nat → Nat) (storage : CString) (cell : Nat) (player : GameRole), IsCell cell →
        player.IsPlayer →
        ((∃ text, game_unparse_move usable storage ⟨cell, player⟩ = some text ∧
          (game_parse_move g .nullRole text).run w = .ok (some ⟨cell, player⟩, w)) ↔
            4 < usable 4) :=
  (game_create_ends _).mono fun _ _ h => game_parse_move_iff .nullRole "5<-O".toList h rfl

/-- On a new game `5abc` is taken for a move to cell 5. -/
theorem game_parse_move_malformed : ¬ ∀ (g : GamePtr) (w : World) (G : Game) (role : GameRole)
    (str : CString), (game g).get w = some G → G.gameLock = 1 →
      ∃ res, (game_parse_move g role str).run w = .ok (res, w) ∧
        ∀ move, res = some move ↔ Means role G.curRole str move := by
  intro hall
  obtain ⟨g, w, -, hlive⟩ := game_create_ends (World.initial fun _ => 0)
  obtain ⟨res, hrun, hright⟩ := hall g w Game.created .nullRole "5abc".toList hlive rfl
  rw [game_parse_move_run _ _ hlive rfl] at hrun
  have hres : res = some ⟨5, .firstPlayerRole⟩ := by
    rw [Except.ok.injEq, Prod.mk.injEq] at hrun
    rw [← hrun.1]
    rfl
  obtain ⟨cell, named, -, -, hstr, -⟩ := (hright _).mp hres
  cases named with
  | none => exact absurd (congrArg List.length hstr) (by simp [written])
  | some player =>
      have hsecond := congrArg (fun text => text[1]?) hstr
      exact absurd hsecond (by simp [written])

end StarterProjects.Jeux
