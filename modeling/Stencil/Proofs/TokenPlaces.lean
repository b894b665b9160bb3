import Mathlib.Data.List.Basic
import Stencil.Proofs.Lexemes

/-!
# Where tokens stand

The characters of an expression are cut into blanks and tokens, and each token is given the location
behind everything that is cut off before it. If the characters cannot be cut further, the fault is
reported where the token begins that cannot be read. Only a malformed number is reported one
character further.

## Main definitions

* `TokenList.Cutting`: characters that are cut into blanks and tokens, and the rest
* `TokenList.placed`: tokens with the locations of their first characters

## Main results

* `TokenList.tells_ofChars`: what is cut off, and what is wrong if not everything is
* `TokenList.places_of_ofChars`: the locations of tokens and of faults
-/

namespace Stencil

/-- A character always takes some place. -/
theorem Location.next_ne (here : Location) (c : Char) : here.next c ≠ here := by
  intro h
  rw [next] at h
  split at h
  · exact Nat.succ_ne_self _ (congrArg Location.line h)
  · exact Nat.succ_ne_self _ (congrArg Location.column h)

namespace TokenList

/-- A blank, or a token and its characters. -/
inductive Item where
  | blank (c : Char)
  | token (token : Token) (chars : List Char)

/-- The characters of an item. -/
def Item.chars : Item → List Char
  | .blank c => [c]
  | .token _ chars => chars

/-- The token of an item. -/
def Item.token? : Item → Option Token
  | .blank _ => none
  | .token found _ => some found

/-- The characters of items, one after the other. -/
def charsOf (items : List Item) : List Char :=
  items.flatMap Item.chars

/-- The tokens of items. -/
def tokensOf (items : List Item) : List Token :=
  items.filterMap Item.token?

/-- The items are cut off the first characters, and the second ones are left. -/
inductive Cutting (rest : List Char) : List Item → List Char → Prop
  | nil : Cutting rest [] rest
  | blank {c : Char} {items : List Item} {after : List Char} (hblank : Text.isBlank c = true)
      (h : Cutting rest items after) : Cutting rest (.blank c :: items) (c :: after)
  | token {token : Token} {first : Char} {more after : List Char} {items : List Item}
      (hblank : Text.isBlank first = false) (hstands : token.Stands (first :: more) after)
      (h : Cutting rest items after) :
      Cutting rest (.token token (first :: more) :: items) (first :: more ++ after)

variable {here : Location} {input rest : List Char} {items : List Item}

theorem Cutting.charsOf_append (h : Cutting rest items input) : charsOf items ++ rest = input := by
  induction h with
  | nil => rfl
  | blank _ _ ih => exact congrArg (_ :: ·) ih
  | @token _ first more _ _ _ _ _ ih =>
    rw [← ih]
    exact List.append_assoc (first :: more) _ rest

/-- The tokens of items, each with the location of its first character. -/
def placed (here : Location) : List Item → List PlacedToken
  | [] => []
  | .blank c :: items => placed (here.next c) items
  | .token token chars :: items => ⟨token, here⟩ :: placed (here.advance chars) items

/-- A token stands behind all characters before it. -/
theorem placed_append (here : Location) (before after : List Item) :
    placed here (before ++ after) =
      placed here before ++ placed (here.advance (charsOf before)) after := by
  induction before generalizing here with
  | nil => rfl
  | cons item before ih =>
    rw [charsOf, List.flatMap_cons, Location.advance_append]
    cases item with
    | blank c => exact ih (here.next c)
    | token token chars => exact congrArg (_ :: ·) (ih (here.advance chars))

theorem map_token_placed (here : Location) (items : List Item) :
    (placed here items).map (·.token) = tokensOf items := by
  induction items generalizing here with
  | nil => rfl
  | cons item items ih =>
    cases item with
    | blank c => exact ih (here.next c)
    | token token chars => exact congrArg (token :: ·) (ih (here.advance chars))

theorem getElem?_placed (here : Location) (before after : List Item) (token : Token)
    (chars : List Char) :
    (placed here (before ++ .token token chars :: after))[(tokensOf before).length]? =
      some ⟨token, here.advance (charsOf before)⟩ := by
  have hlength : (placed here before).length = (tokensOf before).length := by
    rw [← map_token_placed here, List.length_map]
  rw [placed_append, ← hlength, List.getElem?_append_right (Nat.le_refl _), Nat.sub_self]
  rfl

/-- What cutting all tokens tells about the characters. -/
def Tells (here : Location) (input : List Char) : Except ExpressionError TokenList → Prop
  | .ok list => ∃ items, Cutting [] items input ∧ list = ⟨placed here items, here.advance input⟩
  | .error e => ∃ items first rest, Cutting (first :: rest) items input ∧
      Text.isBlank first = false ∧ e.fault.Occurs first rest ∧
      e.location = here.advance (charsOf items ++ if e.fault.isBadNumber then [first] else [])

theorem tells_ofChars (here : Location) (input : List Char) :
    Tells here input (ofChars here input) := by
  fun_induction ofChars here input with
  | case1 here => exact ⟨[], .nil, rfl⟩
  | case2 here first rest hblank ih =>
    cases hrest : ofChars (here.next first) rest with
    | ok list =>
      rw [hrest] at ih
      obtain ⟨items, hcutting, hlist⟩ := ih
      exact ⟨.blank first :: items, .blank hblank hcutting, hlist⟩
    | error e =>
      rw [hrest] at ih
      obtain ⟨items, first', rest', hcutting, hfault⟩ := ih
      exact ⟨.blank first :: items, first', rest', .blank hblank hcutting, hfault⟩
  | case3 here first rest hblank e hnext =>
    have htells := Lexeme.tells_next here first rest
    rw [hnext] at htells
    exact ⟨[], first, rest, .nil, Bool.eq_false_iff.2 hblank, htells⟩
  | case4 here first rest hblank lexeme hnext e hrest ih =>
    have htells := Lexeme.tells_next here first rest
    rw [hnext] at htells
    rw [hrest] at ih
    -- The fault comes later, and its place is counted from the end of the token.
    obtain ⟨items, first', rest', hcutting, hfirst, hoccurs, hlocation⟩ := ih
    refine ⟨.token lexeme.token (first :: lexeme.more) :: items, first', rest', ?_, hfirst,
      hoccurs, ?_⟩
    · have hcut := hcutting.token (Bool.eq_false_iff.2 hblank) htells
      rwa [List.cons_append, lexeme.split] at hcut
    · rw [hlocation, ← Location.advance_append, ← List.append_assoc]
      rfl
  | case5 here first rest hblank lexeme hnext following hrest ih =>
    have htells := Lexeme.tells_next here first rest
    rw [hnext] at htells
    rw [hrest] at ih
    obtain ⟨items, hcutting, rfl⟩ := ih
    refine ⟨.token lexeme.token (first :: lexeme.more) :: items, ?_, ?_⟩
    · have hcut := hcutting.token (Bool.eq_false_iff.2 hblank) htells
      rwa [List.cons_append, lexeme.split] at hcut
    · rw [← Location.advance_append, List.cons_append, lexeme.split]
      rfl

/-- **Locations of tokens.** Characters that can be cut are blanks and tokens, each token has the
location behind all characters before it, and the end has the one behind all characters. Otherwise
blanks and tokens stand before a character at which no token can be read. The fault is reported
there, unless it is a malformed number, which is reported one character further. -/
theorem places_of_ofChars (here : Location) (input : List Char) :
    (∀ list, ofChars here input = .ok list →
      ∃ items, Cutting [] items input ∧ charsOf items = input ∧
        list.tokens.map (·.token) = tokensOf items ∧
        (∀ before token chars after, items = before ++ .token token chars :: after →
          list.tokens[(tokensOf before).length]? =
            some ⟨token, here.advance (charsOf before)⟩) ∧
        list.finish = here.advance input) ∧
      ∀ e, ofChars here input = .error e →
        ∃ items first rest, Cutting (first :: rest) items input ∧
          charsOf items ++ first :: rest = input ∧ Text.isBlank first = false ∧
          e.fault.Occurs first rest ∧
          (e.location = here.advance (charsOf items) ↔ e.fault.isBadNumber = false) ∧
          (e.fault.isBadNumber = true → e.location = here.advance (charsOf items ++ [first])) := by
  have htells := tells_ofChars here input
  refine ⟨fun list hlist => ?_, fun e he => ?_⟩
  · rw [hlist] at htells
    obtain ⟨items, hcutting, rfl⟩ := htells
    refine ⟨items, hcutting, ?_, map_token_placed here items, ?_, rfl⟩
    · rw [← hcutting.charsOf_append, List.append_nil]
    · rintro before token chars after rfl
      exact getElem?_placed here before after token chars
  · rw [he] at htells
    obtain ⟨items, first, rest, hcutting, hblank, hoccurs, hlocation⟩ := htells
    refine ⟨items, first, rest, hcutting, hcutting.charsOf_append, hblank, hoccurs, ?_, ?_⟩
    · rw [hlocation]
      cases e.fault.isBadNumber with
      | false => simp
      | true => simp [Location.advance_append, Location.next_ne]
    · intro hnumber
      rw [hlocation, if_pos hnumber]

/-- The number is the first token and begins at the start, but is reported behind its first
character. A text literal without an end is reported where it begins. -/
theorem malformedNumber_misplaced :
    Cutting "1e".toList [] "1e".toList ∧
      ofChars .start "1e".toList = .error ⟨⟨1, 2⟩, .badNumber "1e"⟩ ∧
      ofChars .start "'e".toList = .error ⟨⟨1, 1⟩, .unterminatedText⟩ ∧
      Location.start.advance (charsOf []) = ⟨1, 1⟩ := by
  refine ⟨.nil, ?_, ?_, rfl⟩ <;> decide +kernel

end TokenList

end Stencil
