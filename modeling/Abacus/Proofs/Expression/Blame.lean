import Abacus.Proofs.Expression.Halt
import Abacus.Proofs.Expression.Place

/-!
# Blame — the token that a fault points at

A fault of the reader that names a position points at the first token that cannot be right: the
tokens before it can be continued to an expression, and with it they cannot (`evaluate_blames`).
Where the expression ends too soon, all of it can be continued.  One fault may come a token late:
a group that closes at once is refused before its nesting is counted, and then its opening
parenthesis can already be one nesting too many (`not_isFirstWrong_too_deep`).
-/

namespace Abacus.Expression

/-! ## The first token that cannot be right -/

/-- The token is the first that cannot be right: the tokens before it are the beginning of an
expression, and with it they are the beginning of none, however deep it may nest. -/
def IsFirstWrong (earlier : List Token) (token : Token) : Prop :=
  IsBeginning nestingLimit earlier ∧ ∀ limit, ¬ IsBeginning limit (earlier ++ [token])

section Following

variable {limit limit' signs : Nat} {groups : List Nat} {tokens : List Token} {token : Token}
  {last next : Standing}

/-- Whether a token can come next is for the standing before it to say. -/
theorem isBeginning_append_iff (h : Leads limit' .start tokens last) :
    IsBeginning limit (tokens ++ [token]) ↔
      IsBeginning limit tokens ∧ ∃ next, Step limit last token next := by
  rw [isBeginning_iff, isBeginning_iff]
  constructor
  · rintro ⟨next, hnext⟩
    obtain ⟨middle, hmiddle, htoken⟩ := hnext.exists_of_append
    obtain rfl := h.unique hmiddle
    cases htoken with
    | cons hstep hrest =>
        cases hrest
        exact ⟨⟨last, hmiddle⟩, next, hstep⟩
  · rintro ⟨⟨middle, hmiddle⟩, next, hstep⟩
    obtain rfl := h.unique hmiddle
    exact ⟨next, hmiddle.append (.cons hstep .nil)⟩

/-- A token that cannot come next is the first that cannot be right. -/
theorem Leads.isFirstWrong (h : Leads nestingLimit .start tokens last)
    (hstep : ∀ limit next, ¬ Step limit last token next) : IsFirstWrong tokens token := by
  refine ⟨isBeginning_iff.mpr ⟨last, h⟩, ?_⟩
  intro limit hbeginning
  obtain ⟨-, next, hnext⟩ := (isBeginning_append_iff h).mp hbeginning
  exact hstep limit next hnext

/-- Where an operand is awaited, only what begins one can come. -/
theorem Step.begins (h : Step limit (.awaiting signs groups) token next) : token.begins := by
  cases h with
  | number digits => trivial
  | sign hop hroom => rcases hop with rfl | rfl <;> trivial
  | opening hroom => trivial

/-- After an operand only an operator can come, or a parenthesis that closes a group. -/
theorem Step.joins_or_closes (h : Step limit (.complete groups) token next) :
    (∃ op, token = .operator op) ∨ token = .closing ∧ groups ≠ [] := by
  cases h with
  | operator op => exact Or.inl ⟨op, rfl⟩
  | closing => exact Or.inr ⟨rfl, by simp⟩

/-- A group opens unless as many signs and groups are open as may be. -/
theorem exists_step_opening_iff :
    (∃ next, Step limit (.awaiting signs groups) .opening next) ↔ nestings groups + signs < limit := by
  constructor
  · rintro ⟨next, hstep⟩
    cases hstep with
    | opening hroom => exact hroom
  · intro hroom
    exact ⟨_, .opening hroom⟩

/-- No expression goes on with a group that closes at once. -/
theorem not_isBeginning_empty_group (h : Leads limit' .start tokens (.awaiting signs groups)) :
    ¬ IsBeginning limit (tokens ++ [.opening, .closing]) := by
  rw [isBeginning_iff]
  rintro ⟨last, hlast⟩
  obtain ⟨middle, hmiddle, hgroup⟩ := hlast.exists_of_append
  obtain rfl := h.unique hmiddle
  cases hgroup with
  | cons hopening hrest =>
      cases hopening
      cases hrest with
      | cons hclosing _ => exact hclosing.begins

end Following

/-! ## The faults of the reader -/

/-- The fault with these words and this position points at the first token that cannot be right. -/
def PointsRight (text : String) (found : List Lexeme) (words : String) (position : Nat) : Prop :=
  ∃ earlier lexeme later, found = earlier ++ lexeme :: later ∧
    lexeme.token.text = words ∧ lexeme.position = position ∧
      TokenAt text (earlier.map Lexeme.token) lexeme.token position ∧
        IsFirstWrong (earlier.map Lexeme.token) lexeme.token

/-- A standing before which no token can follow makes the fault point right. -/
theorem pointsRight_of_leads {text : String} {earlier later : List Lexeme} {lexeme : Lexeme}
    {last : Standing} (hcut : lexemes (marks text) = .ok (earlier ++ lexeme :: later))
    (h : Leads nestingLimit .start (earlier.map Lexeme.token) last)
    (hstep : ∀ limit next, ¬ Step limit last lexeme.token next) :
    PointsRight text (earlier ++ lexeme :: later) lexeme.token.text lexeme.position :=
  ⟨earlier, lexeme, later, rfl, rfl, rfl, tokenAt_of_lexemes_eq_ok hcut, h.isFirstWrong hstep⟩

/-- Where the reading meets a token that is wrong, the fault points right. -/
theorem pointsRight_of_halts {text : String} {found : List Lexeme} {fault : Fault} {words : String}
    {position : Nat} (hcut : lexemes (marks text) = .ok found)
    (h : Halts nestingLimit .start found fault)
    (hfault : fault = .unexpected words position ∨ fault = .expectedClosing words position) :
    PointsRight text found words position := by
  rcases hfault with rfl | rfl
  · cases h with
    | unexpected hleads hbegins =>
        exact pointsRight_of_leads hcut hleads fun _ _ hstep => hbegins hstep.begins
    | leftOver hleads hop =>
        refine pointsRight_of_leads hcut hleads fun _ _ hstep => ?_
        rcases hstep.joins_or_closes with ⟨op, htoken⟩ | ⟨-, hgroups⟩
        · exact hop op htoken
        · exact hgroups rfl
  · cases h with
    | expectedClosing hleads hop hclosing =>
        refine pointsRight_of_leads hcut hleads fun _ _ hstep => ?_
        rcases hstep.joins_or_closes with ⟨op, htoken⟩ | ⟨htoken, -⟩
        · exact hop op htoken
        · exact hclosing htoken

/-- The fault of an empty group has the position of an opening parenthesis, and the closing one after
it is the first token that cannot be right, unless the opening one is a nesting too many: what stands
before it can be continued, and no expression goes on with the two. -/
def PointsAtEmptyGroup (text : String) (found : List Lexeme) (position : Nat) : Prop :=
  ∃ earlier closing later standing,
    found = earlier ++ ⟨.opening, position⟩ :: ⟨.closing, closing⟩ :: later ∧
    TokenAt text (earlier.map Lexeme.token) .opening position ∧
    TokenAt text (earlier.map Lexeme.token ++ [.opening]) .closing closing ∧
    Leads nestingLimit .start (earlier.map Lexeme.token) standing ∧
    IsBeginning nestingLimit (earlier.map Lexeme.token) ∧
    (standing.depth < nestingLimit →
      IsFirstWrong (earlier.map Lexeme.token ++ [.opening]) .closing) ∧
    ∀ limit, ¬ IsBeginning limit (earlier.map Lexeme.token ++ [.opening, .closing])

theorem pointsAtEmptyGroup_of_halts {text : String} {found : List Lexeme} {position : Nat}
    (hcut : lexemes (marks text) = .ok found)
    (h : Halts nestingLimit .start found (.emptyGroup position)) :
    PointsAtEmptyGroup text found position := by
  cases h with
  | @emptyGroup earlier later _ closing signs groups hleads =>
      have hnone (limit : Nat) :
          ¬ IsBeginning limit (earlier.map Lexeme.token ++ [.opening, .closing]) :=
        not_isBeginning_empty_group hleads
      have hbeginning := isBeginning_iff.mpr ⟨_, hleads⟩
      have hclosing : lexemes (marks text) =
          .ok ((earlier ++ [⟨.opening, position⟩]) ++ ⟨.closing, closing⟩ :: later) := by
        simpa using hcut
      refine ⟨earlier, closing, later, _, rfl, tokenAt_of_lexemes_eq_ok hcut,
        by simpa using tokenAt_of_lexemes_eq_ok hclosing, hleads, hbeginning, ?_, hnone⟩
      intro hdepth
      have hopening := (isBeginning_append_iff hleads).mpr
        ⟨hbeginning, exists_step_opening_iff.mpr hdepth⟩
      refine ⟨hopening, ?_⟩
      intro limit
      rw [List.append_assoc]
      exact hnone limit

/-- **A fault points at the first token that cannot be right**, and where the text ends too soon
all of it can be continued.  Of a group that closes at once the closing parenthesis is the token,
unless the opening one is already a nesting too many; then the tokens before that can be
continued. -/
theorem evaluate_blames {text : String} {found : List Lexeme} {fault : Fault}
    (hcut : lexemes (marks text) = .ok found) (h : evaluate text = .error fault) :
    (∀ words position,
      fault = .unexpected words position ∨ fault = .expectedClosing words position →
        PointsRight text found words position) ∧
    (∀ position, fault = .emptyGroup position → PointsAtEmptyGroup text found position) ∧
    (fault = .unexpectedEnd ∨ (∃ position, fault = .unclosed position) →
      IsBeginning nestingLimit (found.map Lexeme.token)) := by
  refine ⟨?_, ?_, ?_⟩
  · intro words position hfault
    refine pointsRight_of_halts hcut ?_ hfault
    rcases hfault with rfl | rfl
    · exact halts_of_evaluate hcut h nofun nofun nofun
    · exact halts_of_evaluate hcut h nofun nofun nofun
  · rintro position rfl
    exact pointsAtEmptyGroup_of_halts hcut (halts_of_evaluate hcut h nofun nofun nofun)
  · rintro (rfl | ⟨position, rfl⟩)
    · cases halts_of_evaluate hcut h nofun nofun nofun with
      | unexpectedEnd hleads => exact isBeginning_iff.mpr ⟨_, hleads⟩
    · cases halts_of_evaluate hcut h nofun nofun nofun with
      | unclosed hleads => exact isBeginning_iff.mpr ⟨_, hleads⟩

/-- A second group inside of the first, where the first ought to be closed. -/
theorem evaluate_blames_second_group :
    lexemes (marks "-( 2*(3)(4") = .ok [⟨.operator .minus, 0⟩, ⟨.opening, 1⟩, ⟨.number ['2'], 3⟩,
      ⟨.operator .times, 4⟩, ⟨.opening, 5⟩, ⟨.number ['3'], 6⟩, ⟨.closing, 7⟩, ⟨.opening, 8⟩,
      ⟨.number ['4'], 9⟩] ∧
    evaluate "-( 2*(3)(4" = .error (.expectedClosing "(" 8) ∧
    PointsRight "-( 2*(3)(4" [⟨.operator .minus, 0⟩, ⟨.opening, 1⟩, ⟨.number ['2'], 3⟩,
      ⟨.operator .times, 4⟩, ⟨.opening, 5⟩, ⟨.number ['3'], 6⟩, ⟨.closing, 7⟩, ⟨.opening, 8⟩,
      ⟨.number ['4'], 9⟩] "(" 8 := by
  have hcut : lexemes (marks "-( 2*(3)(4") = .ok [⟨.operator .minus, 0⟩, ⟨.opening, 1⟩,
      ⟨.number ['2'], 3⟩, ⟨.operator .times, 4⟩, ⟨.opening, 5⟩, ⟨.number ['3'], 6⟩, ⟨.closing, 7⟩,
      ⟨.opening, 8⟩, ⟨.number ['4'], 9⟩] := by decide +kernel
  have hfault : evaluate "-( 2*(3)(4" = .error (.expectedClosing "(" 8) := by decide +kernel
  exact ⟨hcut, hfault, (evaluate_blames hcut hfault).1 _ _ (Or.inr rfl)⟩

/-! ## One nesting too many -/

/-- Each opening parenthesis opens one group more. -/
theorem Leads.depth_of_openings {limit signs count : Nat} {groups : List Nat} {last : Standing}
    (h : Leads limit (.awaiting signs groups) (List.replicate count .opening) last) :
    last.depth = nestings groups + signs + count := by
  induction count generalizing signs groups with
  | zero =>
      cases h
      rfl
  | succ count ih =>
      rw [List.replicate_succ] at h
      cases h with
      | cons hopening hrest =>
          cases hopening
          rw [ih hrest, nestings]
          omega

/-- So many opening parentheses and nothing before them. -/
def openings (count : Nat) : List Lexeme :=
  (List.range count).map fun position => ⟨.opening, position⟩

theorem map_token_openings (count : Nat) :
    (openings count).map Lexeme.token = List.replicate count .opening := by
  rw [openings, List.map_map, List.eq_replicate_iff]
  simp

/-- The group that is empty is one nesting too many: what stands before its closing parenthesis is
not the beginning of an expression. -/
theorem not_isFirstWrong_too_deep :
    lexemes (marks (String.ofList (List.replicate 257 '(' ++ [')']))) =
        .ok (openings 257 ++ [⟨.closing, 257⟩]) ∧
      evaluate (String.ofList (List.replicate 257 '(' ++ [')'])) = .error (.emptyGroup 256) ∧
        ¬ IsFirstWrong ((openings 257).map Lexeme.token) .closing := by
  have hmarks : marks (String.ofList (List.replicate 257 '(' ++ [')'])) =
      (List.range 257).map (fun position => ⟨'(', position⟩) ++ [⟨')', 257⟩] := by
    rw [marks, String.toList_ofList]
    decide +kernel
  have hcut : lexemes (marks (String.ofList (List.replicate 257 '(' ++ [')']))) =
      .ok (openings 257 ++ [⟨.closing, 257⟩]) := by
    rw [hmarks]
    decide +kernel
  refine ⟨hcut, ?_, ?_⟩
  · refine evaluate_eq_error_iff.mpr (.unread ?_ ?_ hcut (by decide +kernel))
    · rw [hmarks]
      rfl
    · rw [hasAllowedCharacters, String.toList_ofList]
      decide +kernel
  · rintro ⟨hbeginning, -⟩
    rw [map_token_openings] at hbeginning
    obtain ⟨last, hleads⟩ := isBeginning_iff.mp hbeginning
    have hdepth := hleads.depth_le (Nat.zero_le _)
    rw [hleads.depth_of_openings] at hdepth
    exact absurd hdepth (by decide)

end Abacus.Expression
