import Abacus.Expression.Cursor
import Abacus.Proofs.Expression.Halt
import Abacus.Proofs.Expression.Matched

/-!
# Cursor — a walk reads what the reader of its part reads

A walk keeps one place and one count for all that it reads, where a reader of phrases hands on the
lexemes that are left over and knows how much may still be opened.  The two are compared outcome by
outcome (`Matches`): the same fault, or the same tree with the place moved to the lexemes left over
and the count put back to what it was.  Going along, no more signs and groups are open at once than
one beyond the limit, which is where a fault ends the walk.  The comparison goes through each step of
a walk (`Matches.bind`), through reading on (`joinOn_matches`), and by the number of calls through the
walks within a walk (`walk_follows`).  So what the grammar says of the readers holds of the walks
(`walk_keeps`).
-/

namespace Abacus.Expression

/-! ## Steps -/

namespace Walk

variable {α β : Type} {lexemes : List Lexeme}

/-- A walk goes on where the walk before it has ended with a value. -/
theorem bind_apply (first : Walk α) (second : α → Walk β) (cursor : Cursor) :
    (first >>= second) cursor =
      match first cursor with
      | none => none
      | some (.ok a, last) => second a last
      | some (.error fault, last) => some (.error fault, last) := by
  show Option.bind (first cursor) _ = _
  cases first cursor with
  | none => rfl
  | some outcome =>
      obtain ⟨answer, last⟩ := outcome
      cases answer with
      | ok a => rfl
      | error fault => rfl

theorem peek_bind (second : Option Lexeme → Walk β) (cursor : Cursor) :
    (peek lexemes >>= second) cursor = second lexemes[cursor.place]? cursor :=
  rfl

theorem next_bind_some {lexeme : Lexeme} (second : Option Lexeme → Walk β) (cursor : Cursor)
    (h : lexemes[cursor.place]? = some lexeme) :
    (next lexemes >>= second) cursor = second (some lexeme) cursor.advance := by
  rw [next, bind_assoc, peek_bind, h]
  rfl

theorem next_bind_none (second : Option Lexeme → Walk β) (cursor : Cursor)
    (h : lexemes[cursor.place]? = none) :
    (next lexemes >>= second) cursor = second none cursor := by
  rw [next, bind_assoc, peek_bind, h]
  rfl

theorem modify_bind (move : Cursor → Cursor) (second : Unit → Walk β) (cursor : Cursor) :
    ((modify move : Walk Unit) >>= second) cursor = second () (move cursor) :=
  rfl

/-- A walk ends where one sign or group too many is opened. -/
theorem descend_bind (second : Unit → Walk β) (cursor : Cursor) :
    (descend >>= second) cursor =
      if nestingLimit < cursor.depth + 1 then some (.error .tooDeep, cursor.descend)
      else second () cursor.descend := by
  rw [descend, bind_assoc, modify_bind]
  show ((if nestingLimit < cursor.depth + 1 then throw .tooDeep else pure () : Walk Unit) >>= second)
    cursor.descend = _
  split
  · rfl
  · rfl

end Walk

/-! ## Walks beside readers -/

/-- The place is one among the lexemes or after the last of them, and never has more been open than
one beyond the limit. -/
structure Cursor.IsWithin (lexemes : List Lexeme) (cursor : Cursor) : Prop where
  place_le : cursor.place ≤ lexemes.length
  deepest_le : cursor.deepest ≤ nestingLimit + 1

/-- The cursor has moved on or stayed where it was, and as much is open as before. -/
structure Cursor.Reaches (lexemes : List Lexeme) (first last : Cursor) : Prop where
  isWithin : last.IsWithin lexemes
  place_le : first.place ≤ last.place
  depth_eq : last.depth = first.depth

/-- A walk from the first cursor comes out as the reading of a phrase does. -/
inductive Matches (lexemes : List Lexeme) (first : Cursor) :
    Option (Except Fault Tree × Cursor) → Except Fault (Tree × List Lexeme) → Prop where
  | ok {tree : Tree} {last : Cursor} : first.Reaches lexemes last →
      Matches lexemes first (some (.ok tree, last)) (.ok (tree, lexemes.drop last.place))
  | error {fault : Fault} {last : Cursor} : last.deepest ≤ nestingLimit + 1 →
      Matches lexemes first (some (.error fault, last)) (.error fault)

/-- Wherever it begins, with so many signs and groups open, the walk comes out as the phrase does. -/
def Follows (lexemes : List Lexeme) (depth : Nat) (part : Walk Tree) (phrase : Phrase) : Prop :=
  ∀ cursor : Cursor, cursor.IsWithin lexemes → cursor.depth = depth →
    Matches lexemes cursor (part cursor) (phrase (lexemes.drop cursor.place))

section Matching

variable {lexemes : List Lexeme} {first middle last cursor : Cursor}

theorem Cursor.IsWithin.refl (h : cursor.IsWithin lexemes) : cursor.Reaches lexemes cursor :=
  ⟨h, Nat.le_refl _, rfl⟩

/-- A walk that begins later on. -/
theorem Matches.after {outcome : Option (Except Fault Tree × Cursor)}
    {reading : Except Fault (Tree × List Lexeme)} (h : Matches lexemes middle outcome reading)
    (hplace : first.place ≤ middle.place) (hdepth : middle.depth = first.depth) :
    Matches lexemes first outcome reading := by
  cases h with
  | ok hreaches =>
      exact .ok ⟨hreaches.isWithin, Nat.le_trans hplace hreaches.place_le,
        hreaches.depth_eq.trans hdepth⟩
  | error hdeepest => exact .error hdeepest

/-- Two walks one after the other beside two readings one after the other. -/
theorem Matches.bind {part : Walk Tree} {reading : Except Fault (Tree × List Lexeme)}
    {second : Tree → Walk Tree} {further : Tree × List Lexeme → Except Fault (Tree × List Lexeme)}
    (h : Matches lexemes middle (part middle) reading)
    (hsecond : ∀ tree last, middle.Reaches lexemes last →
      Matches lexemes first (second tree last) (further (tree, lexemes.drop last.place))) :
    Matches lexemes first ((part >>= second) middle) (reading >>= further) := by
  rw [Walk.bind_apply]
  generalize part middle = outcome at h
  cases h with
  | ok hreaches => exact hsecond _ _ hreaches
  | error hdeepest => exact .error hdeepest

/-- The lexeme at the cursor, and the lexemes after it. -/
theorem getElem?_of_drop_eq_cons {place : Nat} {lexeme : Lexeme} {rest : List Lexeme}
    (h : lexemes.drop place = lexeme :: rest) :
    lexemes[place]? = some lexeme ∧ lexemes.drop (place + 1) = rest ∧ place < lexemes.length := by
  refine ⟨?_, ?_, ?_⟩
  · rw [← List.head?_drop, h]
    rfl
  · rw [← List.tail_drop, h]
    rfl
  · by_contra hend
    rw [List.drop_eq_nil_of_le (Nat.le_of_not_lt hend)] at h
    cases h

theorem getElem?_of_drop_eq_nil {place : Nat} (h : lexemes.drop place = []) :
    lexemes[place]? = none :=
  List.getElem?_eq_none (List.drop_eq_nil_iff.mp h)

end Matching

/-! ## Reading on -/

section JoiningOn

variable {lexemes : List Lexeme} {joins : Operator → Bool} {part : Walk Tree} {cursor : Cursor}

/-- Where nothing is joined on, reading on ends. -/
theorem joinOn_of_stops (turns : Nat) (left : Tree)
    (h : Stops joins (lexemes.drop cursor.place)) :
    Walk.joinOn lexemes joins part (turns + 1) left cursor = some (.ok left, cursor) := by
  rw [Walk.joinOn, Walk.peek_bind]
  cases hrest : lexemes.drop cursor.place with
  | nil =>
      rw [getElem?_of_drop_eq_nil hrest]
      rfl
  | cons lexeme rest =>
      rw [(getElem?_of_drop_eq_cons hrest).1]
      obtain ⟨token, position⟩ := lexeme
      cases token with
      | operator op =>
          show (if joins op = true then _ else pure left : Walk Tree) cursor = _
          rw [h op position rest hrest]
          rfl
      | number digits => rfl
      | opening => rfl
      | closing => rfl

/-- After an operator that joins, one more part is read and joined on. -/
theorem joinOn_of_joins (turns : Nat) (left : Tree) {op : Operator} {position : Nat}
    {rest : List Lexeme} (hrest : lexemes.drop cursor.place = ⟨.operator op, position⟩ :: rest)
    (hop : joins op = true) :
    Walk.joinOn lexemes joins part (turns + 1) left cursor =
      (part >>= fun right => Walk.joinOn lexemes joins part turns (.joined op left right))
        cursor.advance := by
  rw [Walk.joinOn, Walk.peek_bind, (getElem?_of_drop_eq_cons hrest).1]
  show (if joins op = true then _ else _ : Walk Tree) cursor = _
  rw [if_pos hop, Walk.modify_bind]

/-- Reading on at the cursor is reading on with the lexemes from there on, if as many parts may be
read as there are lexemes.  The turns do not run out, for each begins further on. -/
theorem joinOn_matches {depth count : Nat} {operand : Phrase}
    (hpart : Follows lexemes depth part operand) (left : Tree) (hwithin : cursor.IsWithin lexemes)
    (hdepth : cursor.depth = depth) (hcount : lexemes.length - cursor.place ≤ count) :
    Matches lexemes cursor (Walk.joinOn lexemes joins part (count + 1) left cursor)
      (chain joins operand count left (lexemes.drop cursor.place)) := by
  induction count generalizing left cursor with
  | zero =>
      have hend : lexemes.drop cursor.place = [] := List.drop_eq_nil_iff.mpr (by omega)
      have hstops : Stops joins (lexemes.drop cursor.place) := by
        rw [hend]
        exact fun op position later heq => nomatch heq
      rw [joinOn_of_stops 0 left hstops, chain_of_stops 0 left hstops]
      exact .ok hwithin.refl
  | succ count ih =>
      rcases stops_or_joins joins (lexemes.drop cursor.place) with
        hstops | ⟨op, position, rest, hrest, hop⟩
      · rw [joinOn_of_stops _ left hstops, chain_of_stops _ left hstops]
        exact .ok hwithin.refl
      · obtain ⟨-, hlater, hplace⟩ := getElem?_of_drop_eq_cons hrest
        rw [joinOn_of_joins _ left hrest hop, hrest,
          chain_of_joins count left position rest hop, ← hlater]
        have hnext : cursor.advance.IsWithin lexemes := ⟨hplace, hwithin.deepest_le⟩
        refine (hpart cursor.advance hnext hdepth).bind fun right last hreaches => ?_
        have hlength : lexemes.length - last.place ≤ count := by
          have hmoved : cursor.place + 1 ≤ last.place := hreaches.place_le
          omega
        have hmore := ih (.joined op left right) hreaches.isWithin
          (hreaches.depth_eq.trans hdepth) hlength
        exact hmore.after (Nat.le_trans (Nat.le_succ _) hreaches.place_le) hreaches.depth_eq

/-- Parts that are joined on. -/
theorem joinedBy_matches {depth : Nat} {operand : Phrase}
    (hpart : Follows lexemes depth part operand) :
    Follows lexemes depth (part >>= Walk.joinOn lexemes joins part (lexemes.length + 1))
      (joinedBy joins lexemes.length operand) := by
  intro cursor hwithin hdepth
  refine (hpart cursor hwithin hdepth).bind fun left last hreaches => ?_
  exact (joinOn_matches hpart left hreaches.isWithin (hreaches.depth_eq.trans hdepth)
    (Nat.sub_le ..)).after hreaches.place_le hreaches.depth_eq

end JoiningOn

/-! ## The parts -/

/-- Read an operand that has no sign in front of it. -/
def primary (count nestings : Nat) : Phrase
  | ⟨.operator op, position⟩ :: _ => .error (.unexpected (String.singleton op.symbol) position)
  | lexemes => operand count nestings lexemes

/-- The reader of a part, for at most `count` operands in a row and so many more signs and groups. -/
def Part.phrase (count nestings : Nat) : Part → Phrase
  | .sum => Expression.sum count (Expression.operand count nestings)
  | .product => Expression.product count (Expression.operand count nestings)
  | .operand => Expression.operand count nestings
  | .primary => Expression.primary count nestings

/-- How many calls may have to be open at once to read a part: four for each sign or group that may
still be opened, and those that lead from the part to a primary. -/
def Part.calls (depth : Nat) : Part → Nat
  | .sum => 4 * (nestingLimit - depth) + 4
  | .product => 4 * (nestingLimit - depth) + 3
  | .operand => 4 * (nestingLimit - depth) + 2
  | .primary => 4 * (nestingLimit - depth) + 1

/-- Before anything but a sign an operand is a primary. -/
theorem operand_eq_primary (count nestings : Nat) {lexemes : List Lexeme}
    (h : ∀ op position rest, lexemes = ⟨.operator op, position⟩ :: rest → op.isAdditive = false) :
    operand count nestings lexemes = primary count nestings lexemes := by
  rw [primary.eq_def]
  split
  · next op position rest =>
      cases nestings with
      | zero => rw [operand, operandWithin, h op position rest rfl]; rfl
      | succ nestings => rw [operand, operandWithin, h op position rest rfl]; rfl
  · rfl

/-- An operand is read with a reader of those inside of it or without one. -/
theorem exists_operandWithin (count nestings : Nat) :
    ∃ inner, operand count nestings = operandWithin count inner := by
  cases nestings with
  | zero => exact ⟨none, rfl⟩
  | succ nestings => exact ⟨some _, rfl⟩

section Walking

variable {lexemes : List Lexeme} {height depth : Nat} {first cursor : Cursor}

/-- Where nothing more may be opened, an operand is read without a reader of those inside. -/
theorem operand_of_le (count : Nat) (h : nestingLimit ≤ depth) :
    operand count (nestingLimit - depth) = operandWithin count none := by
  rw [Nat.sub_eq_zero_of_le h, operand]

/-- Where more may be opened, the operands inside of an operand are read with one nesting less. -/
theorem operand_of_lt (count : Nat) (h : depth < nestingLimit) :
    operand count (nestingLimit - depth) =
      operandWithin count (some (operand count (nestingLimit - (depth + 1)))) := by
  rw [show nestingLimit - depth = nestingLimit - (depth + 1) + 1 by omega, operand]

/-- A fault where the cursor has come to. -/
theorem Matches.fault (hwithin : cursor.IsWithin lexemes) (fault : Fault) :
    Matches lexemes first (some (.error fault, cursor)) (.error fault) :=
  .error hwithin.deepest_le

/-- One more may be open than the limit allows, for that is where a walk ends. -/
theorem Cursor.IsWithin.descend (h : cursor.IsWithin lexemes)
    (hdepth : cursor.depth ≤ nestingLimit) : cursor.descend.IsWithin lexemes :=
  ⟨h.place_le, Nat.max_le.mpr ⟨h.deepest_le, Nat.succ_le_succ hdepth⟩⟩

/-- Opening one too many is a fault. -/
theorem descend_matches_tooDeep (hwithin : cursor.IsWithin lexemes)
    (hcursor : cursor.depth = nestingLimit) (second : Unit → Walk Tree) :
    Matches lexemes first ((Walk.descend >>= second) cursor) (.error .tooDeep) := by
  rw [Walk.descend_bind, if_pos (by omega)]
  exact .fault (hwithin.descend hcursor.le) _

/-- What is opened is closed again after what is inside has been read. -/
theorem descend_matches {inner : Walk Tree} {phrase : Phrase}
    (hinner : Follows lexemes (cursor.depth + 1) inner phrase) (hwithin : cursor.IsWithin lexemes)
    (hcursor : cursor.depth < nestingLimit) {second : Tree → Walk Tree}
    {further : Tree × List Lexeme → Except Fault (Tree × List Lexeme)}
    (hsecond : ∀ tree last, cursor.Reaches lexemes last →
      Matches lexemes first (second tree last) (further (tree, lexemes.drop last.place))) :
    Matches lexemes first
      ((Walk.descend >>= fun _ => inner >>= fun tree => Walk.ascend >>= fun _ => second tree)
        cursor)
      (phrase (lexemes.drop cursor.place) >>= further) := by
  rw [Walk.descend_bind, if_neg (by omega)]
  refine (hinner cursor.descend (hwithin.descend hcursor.le) rfl).bind fun tree last hreaches => ?_
  rw [Walk.ascend, Walk.modify_bind]
  refine hsecond tree last.ascend ⟨⟨hreaches.isWithin.place_le, hreaches.isWithin.deepest_le⟩,
    hreaches.place_le, ?_⟩
  show last.depth - 1 = cursor.depth
  rw [hreaches.depth_eq]
  rfl

/-- A sign is walked as it is read, if the operand that it stands before is. -/
theorem signed_matches (hdepth : depth ≤ nestingLimit)
    (hoperand : depth < nestingLimit → Follows lexemes (depth + 1) (walk lexemes height .operand)
      (operand lexemes.length (nestingLimit - (depth + 1))))
    (hwithin : cursor.IsWithin lexemes) (hcursor : cursor.depth = depth) {op : Operator}
    (hop : op.isAdditive = true) (position : Nat) (hplace : first.place ≤ cursor.place)
    (hfirst : cursor.depth = first.depth) :
    Matches lexemes first (Walk.signed op (walk lexemes height .operand) cursor)
      (operand lexemes.length (nestingLimit - depth)
        (⟨.operator op, position⟩ :: lexemes.drop cursor.place)) := by
  subst hcursor
  rcases Nat.lt_or_eq_of_le hdepth with hlt | heq
  · rw [operand_of_lt _ hlt, operandWithin, if_pos hop]
    refine descend_matches (hoperand hlt) hwithin hlt fun tree last hreaches => ?_
    exact .ok ⟨hreaches.isWithin, Nat.le_trans hplace hreaches.place_le,
      hreaches.depth_eq.trans hfirst⟩
  · rw [operand_of_le _ heq.ge, operandWithin, if_pos hop]
    exact descend_matches_tooDeep hwithin heq _

/-- A group that does not close at once is walked as it is read, if the sum in it is. -/
theorem group_matches (hdepth : depth ≤ nestingLimit)
    (hsum : depth < nestingLimit → Follows lexemes (depth + 1) (walk lexemes height .sum)
      (Part.sum.phrase lexemes.length (nestingLimit - (depth + 1))))
    (hwithin : cursor.IsWithin lexemes) (hcursor : cursor.depth = depth) (position : Nat)
    {first : Cursor} (hplace : first.place ≤ cursor.place) (hfirst : cursor.depth = first.depth)
    (hcloses : ∀ closing later, lexemes.drop cursor.place ≠ ⟨.closing, closing⟩ :: later) :
    Matches lexemes first (Walk.group lexemes (walk lexemes height .sum) position cursor)
      (operand lexemes.length (nestingLimit - depth)
        (⟨.opening, position⟩ :: lexemes.drop cursor.place)) := by
  subst hcursor
  rcases Nat.lt_or_eq_of_le hdepth with hlt | heq
  · rw [operand_of_lt _ hlt, operandWithin_group _ _ _ hcloses]
    refine descend_matches (hsum hlt) hwithin hlt fun inner last hreaches => ?_
    cases hrest : lexemes.drop last.place with
    | nil =>
        rw [Walk.next_bind_none _ last (getElem?_of_drop_eq_nil hrest)]
        exact .fault hreaches.isWithin _
    | cons lexeme rest =>
        obtain ⟨hlexeme, rfl, hend⟩ := getElem?_of_drop_eq_cons hrest
        have hnext : last.advance.IsWithin lexemes := ⟨hend, hreaches.isWithin.deepest_le⟩
        rw [Walk.next_bind_some _ last hlexeme]
        obtain ⟨token, closing⟩ := lexeme
        cases token with
        | closing =>
            exact .ok ⟨hnext, Nat.le_succ_of_le (Nat.le_trans hplace hreaches.place_le),
              hreaches.depth_eq.trans hfirst⟩
        | number digits => exact .fault hnext _
        | operator op => exact .fault hnext _
        | opening => exact .fault hnext _
  · rw [operand_of_le _ heq.ge, operandWithin_group _ _ _ hcloses]
    exact descend_matches_tooDeep hwithin heq _

/-- A primary is walked as it is read, if the sum in a group is. -/
theorem primary_follows (hdepth : depth ≤ nestingLimit)
    (hsum : depth < nestingLimit → Follows lexemes (depth + 1) (walk lexemes height .sum)
      (Part.sum.phrase lexemes.length (nestingLimit - (depth + 1)))) :
    Follows lexemes depth (walk lexemes (height + 1) .primary)
      (Part.primary.phrase lexemes.length (nestingLimit - depth)) := by
  intro cursor hwithin hcursor
  obtain ⟨inner, hinner⟩ := exists_operandWithin lexemes.length (nestingLimit - depth)
  rw [walk]
  cases hrest : lexemes.drop cursor.place with
  | nil =>
      rw [Walk.next_bind_none _ cursor (getElem?_of_drop_eq_nil hrest)]
      show Matches lexemes cursor _ (operand lexemes.length (nestingLimit - depth) [])
      rw [hinner]
      exact .fault hwithin _
  | cons lexeme rest =>
      obtain ⟨hlexeme, rfl, hend⟩ := getElem?_of_drop_eq_cons hrest
      have hnext : cursor.advance.IsWithin lexemes := ⟨hend, hwithin.deepest_le⟩
      rw [Walk.next_bind_some _ cursor hlexeme]
      obtain ⟨token, position⟩ := lexeme
      cases token with
      | operator op => exact .fault hnext _
      | number digits =>
          show Matches lexemes cursor _
            (operand lexemes.length (nestingLimit - depth) (⟨.number digits, position⟩ :: _))
          rw [hinner]
          exact .ok ⟨hnext, Nat.le_succ _, rfl⟩
      | closing =>
          show Matches lexemes cursor _
            (operand lexemes.length (nestingLimit - depth) (⟨.closing, position⟩ :: _))
          rw [hinner]
          exact .fault hnext _
      | opening =>
          show Matches lexemes cursor ((Walk.peek lexemes >>= _) cursor.advance)
            (operand lexemes.length (nestingLimit - depth) (⟨.opening, position⟩ :: _))
          rw [Walk.peek_bind]
          have hgroup := group_matches hdepth hsum hnext hcursor position
            (Nat.le_succ cursor.place) rfl
          cases hlater : lexemes.drop cursor.advance.place with
          | nil =>
              rw [getElem?_of_drop_eq_nil hlater]
              exact hgroup (by simp [hlater])
          | cons lexeme later =>
              rw [(getElem?_of_drop_eq_cons hlater).1]
              obtain ⟨token, closing⟩ := lexeme
              cases token with
              | closing =>
                  rw [show lexemes.drop (cursor.place + 1) = _ from hlater, hinner]
                  exact .fault hnext _
              | number digits => exact hgroup (by simp [hlater])
              | operator op => exact hgroup (by simp [hlater])
              | opening => exact hgroup (by simp [hlater])

/-- An operand is walked as it is read, if the operand after a sign and the primary are. -/
theorem operand_follows (hdepth : depth ≤ nestingLimit)
    (hoperand : depth < nestingLimit → Follows lexemes (depth + 1) (walk lexemes height .operand)
      (operand lexemes.length (nestingLimit - (depth + 1))))
    (hprimary : Follows lexemes depth (walk lexemes height .primary)
      (primary lexemes.length (nestingLimit - depth))) :
    Follows lexemes depth (walk lexemes (height + 1) .operand)
      (operand lexemes.length (nestingLimit - depth)) := by
  intro cursor hwithin hcursor
  have hprimary := hprimary cursor hwithin hcursor
  rw [walk, Walk.peek_bind]
  rcases stops_or_joins Operator.isAdditive (lexemes.drop cursor.place) with
    hstops | ⟨op, position, rest, hrest, hop⟩
  · rw [operand_eq_primary _ _ hstops]
    cases hrest : lexemes.drop cursor.place with
    | nil =>
        rw [getElem?_of_drop_eq_nil hrest, ← hrest]
        exact hprimary
    | cons lexeme rest =>
        rw [(getElem?_of_drop_eq_cons hrest).1, ← hrest]
        obtain ⟨token, position⟩ := lexeme
        cases token with
        | operator op =>
            show Matches lexemes cursor
              ((if op.isAdditive = true then _ else walk lexemes height .primary : Walk Tree) cursor) _
            rw [hstops op position rest hrest]
            exact hprimary
        | number digits => exact hprimary
        | opening => exact hprimary
        | closing => exact hprimary
  · obtain ⟨hlexeme, rfl, hend⟩ := getElem?_of_drop_eq_cons hrest
    rw [hlexeme, hrest]
    show Matches lexemes cursor ((if op.isAdditive = true then _ else _ : Walk Tree) cursor) _
    rw [if_pos hop, Walk.modify_bind]
    have hnext : cursor.advance.IsWithin lexemes := ⟨hend, hwithin.deepest_le⟩
    exact signed_matches hdepth hoperand hnext hcursor hop position (Nat.le_succ _) rfl

/-- **Each part is walked as it is read**, if as many calls may be open as that takes. -/
theorem walk_follows (hdepth : depth ≤ nestingLimit) (part : Part)
    (hheight : part.calls depth ≤ height) :
    Follows lexemes depth (walk lexemes height part)
      (part.phrase lexemes.length (nestingLimit - depth)) := by
  -- by the calls that may be open: a part takes one for itself, a sign or a group four at most
  induction height generalizing depth part with
  | zero =>
      have hcalls : 0 < part.calls depth := by cases part <;> exact Nat.succ_pos _
      omega
  | succ height ih =>
      cases part with
      | sum => exact joinedBy_matches (ih hdepth .product (Nat.le_of_succ_le_succ hheight))
      | product => exact joinedBy_matches (ih hdepth .operand (Nat.le_of_succ_le_succ hheight))
      | operand =>
          refine operand_follows hdepth (fun hlt => ih hlt .operand ?_)
            (ih hdepth .primary (Nat.le_of_succ_le_succ hheight))
          simp only [Part.calls] at hheight ⊢
          omega
      | primary =>
          refine primary_follows hdepth fun hlt => ih hlt .sum ?_
          simp only [Part.calls] at hheight ⊢
          omega

end Walking

/-! ## What a walk keeps -/

/-- What the reader of any part reads is a sum. -/
theorem Part.phrase_sound (count room : Nat) (part : Part) :
    Reads (part.phrase count room) (IsSum room) := by
  intro lexemes tree rest h
  cases part with
  | sum => exact sum_sound (operand_sound count room) count h
  | product =>
      obtain ⟨used, hused, hproduct⟩ := product_sound (operand_sound count room) count h
      exact ⟨used, hused, .product hproduct⟩
  | operand =>
      obtain ⟨used, hused, hoperand⟩ := operand_sound count room h
      exact ⟨used, hused, .product (.operand hoperand)⟩
  | primary =>
      rw [Part.phrase, primary.eq_def] at h
      split at h
      · exact nomatch h
      · obtain ⟨used, hused, hoperand⟩ := operand_sound count room h
        exact ⟨used, hused, .product (.operand hoperand)⟩

/-- The lexemes from one place up to another are an expression with the given tree: there is one at
least, they close what they open and nothing else, and their tokens alone are read as the tree,
whatever stands around them. -/
structure IsStretch (lexemes : List Lexeme) (first last : Nat) (tree : Tree) : Prop where
  lt : first < last
  le : last ≤ lexemes.length
  isMatched : IsMatched Token.opens Token.closes 0 ((lexemes.extract first last).map Lexeme.token)
  read_eq : ∀ alone : List Lexeme,
    alone.map Lexeme.token = (lexemes.extract first last).map Lexeme.token → read alone = .ok tree

/-- What the grammar derives from the lexemes up to a place is an expression of its own. -/
theorem isStretch_of_isSum {lexemes used : List Lexeme} {first last : Nat} {tree : Tree}
    (hlast : last ≤ lexemes.length) (hused : lexemes.drop first = used ++ lexemes.drop last)
    (hsum : IsSum nestingLimit (used.map Lexeme.token) tree) :
    IsStretch lexemes first last tree := by
  have hsome : 0 < used.length := by
    obtain ⟨token, rest, hbegins, -⟩ := hsum.beginsWell
    rw [← List.length_map Lexeme.token, hbegins]
    exact Nat.succ_pos _
  have hlength : lexemes.length - first = used.length + (lexemes.length - last) := by
    simpa only [List.length_drop, List.length_append] using congrArg List.length hused
  have hextract : lexemes.extract first last = used := by
    rw [List.extract_eq_take_drop, hused, show last - first = used.length by omega,
      List.take_left]
  refine ⟨by omega, hlast, ?_, fun alone halone => ?_⟩
  · rw [hextract, ← areBalanced_iff, ← List.append_nil (used.map Lexeme.token), hsum.closes 0 []]
    rfl
  · rw [read_eq_ok_iff, halone, hextract]
    exact hsum

/-- **What a walk keeps.**  From any place and with any number of signs and groups open up to the
limit, a walk of a part comes to an end when as many calls may be open as `Part.calls` says, and
never have more signs and groups been open than one beyond the limit.  It comes out as the reader of
its part does with the lexemes from there on.  If that is a tree, then as many are open as before,
and the lexemes that the cursor has moved over are an expression of their own with that tree; a sum
goes on to where no operator comes next. -/
theorem walk_keeps (lexemes : List Lexeme) (part : Part) {place depth height : Nat}
    (hplace : place ≤ lexemes.length) (hdepth : depth ≤ nestingLimit)
    (hheight : part.calls depth ≤ height) :
    ∃ outcome last, walk lexemes height part (Cursor.start place depth) = some (outcome, last) ∧
      last.deepest ≤ nestingLimit + 1 ∧
      (outcome.map fun tree => (tree, lexemes.drop last.place)) =
        part.phrase lexemes.length (nestingLimit - depth) (lexemes.drop place) ∧
      ∀ tree, outcome = .ok tree → last.depth = depth ∧ IsStretch lexemes place last.place tree ∧
        (part = .sum → ∀ op position, lexemes[last.place]? ≠ some ⟨.operator op, position⟩) := by
  have hwithin : (Cursor.start place depth).IsWithin lexemes := ⟨hplace, Nat.le_succ_of_le hdepth⟩
  have hmatches := walk_follows hdepth part hheight (Cursor.start place depth) hwithin rfl
  generalize walk lexemes height part (Cursor.start place depth) = outcome at hmatches
  generalize hreading :
    part.phrase lexemes.length (nestingLimit - depth) (lexemes.drop place) = reading
  rw [show (Cursor.start place depth).place = place from rfl, hreading] at hmatches
  cases hmatches with
  | error hdeepest => exact ⟨_, _, rfl, hdeepest, rfl, nofun⟩
  | ok hreaches =>
      refine ⟨_, _, rfl, hreaches.isWithin.deepest_le, rfl, ?_⟩
      rintro tree ⟨⟩
      obtain ⟨used, hused, hsum⟩ := part.phrase_sound _ _ hreading
      refine ⟨hreaches.depth_eq, isStretch_of_isSum hreaches.isWithin.place_le hused
        (hsum.widen (Nat.sub_le ..)), ?_⟩
      rintro rfl op position hnext
      -- a sum is read up to where nothing is joined on any more
      have hends := sum_leaves (operand_sound _ _) (by simp) hreading
      obtain ⟨hlt, hget⟩ := List.getElem?_eq_some_iff.mp hnext
      exact hends op position _ ((List.drop_eq_getElem_cons hlt).trans (by rw [hget]))

/-- In `+(2)*-3)`, after the plus and with one more to be opened at most, a group and a sign are
opened one after the other; the sum ends at the parenthesis that nothing has opened. -/
theorem walk_keeps_group_times_sign :
    let lexemes : List Lexeme := [⟨.operator .plus, 0⟩, ⟨.opening, 1⟩, ⟨.number ['2'], 2⟩,
      ⟨.closing, 3⟩, ⟨.operator .times, 4⟩, ⟨.operator .minus, 5⟩, ⟨.number ['3'], 6⟩, ⟨.closing, 7⟩]
    let tree : Tree := .joined .times (.number ['2']) (.signed true (.number ['3']))
    1 ≤ lexemes.length ∧ 255 ≤ nestingLimit ∧ Part.sum.calls 255 ≤ 8 ∧
      ∃ last, walk lexemes 8 .sum (Cursor.start 1 255) = some (.ok tree, last) ∧
        last.deepest ≤ nestingLimit + 1 ∧ last.depth = 255 ∧ IsStretch lexemes 1 last.place tree ∧
        lexemes.drop last.place = [⟨.closing, 7⟩] := by
  intro lexemes tree
  have hplace : 1 ≤ lexemes.length := by decide
  have hdepth : 255 ≤ nestingLimit := by decide
  have hheight : Part.sum.calls 255 ≤ 8 := by decide
  refine ⟨hplace, hdepth, hheight, ?_⟩
  obtain ⟨outcome, last, hwalk, hdeepest, hreading, hkeeps⟩ :=
    walk_keeps lexemes .sum hplace hdepth hheight
  have hread : Part.sum.phrase lexemes.length (nestingLimit - 255) (lexemes.drop 1) =
      .ok (tree, [⟨.closing, 7⟩]) := rfl
  rw [hread] at hreading
  cases outcome with
  | error fault => exact nomatch hreading
  | ok found =>
      obtain ⟨rfl, hrest⟩ := Prod.mk.inj (Except.ok.inj hreading)
      obtain ⟨hback, hstretch, -⟩ := hkeeps _ rfl
      exact ⟨last, hwalk, hdeepest, hback, hstretch, hrest⟩

end Abacus.Expression
