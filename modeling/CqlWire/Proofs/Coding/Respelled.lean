import CqlWire.Coding.Record

/-!
# Errors that spell a type differently

What a coding stores and reads does not depend on how its column type is spelled, but its errors quote
it. Two computations are alike up to spelling (`AlikeUpToSpelling`) if they have the same result, or
errors that differ in that type alone. Steps that are alike can be put one after the other
(`alikeUpToSpelling_bind`); the steps of records that quote their type are `Frame.alike_require`,
`Coding.alike_readSlots` and `Coding.alike_placeLiterals`.
-/

namespace CqlWire

/-- Errors that are the same, or the same for a type that the first spells `t` and the second `t'`. -/
inductive Error.Respelled (t t' : String) : Error → Error → Prop where
  | same (e : Error) : Respelled t t' e e
  | illegalValue (value reason : String) :
    Respelled t t' (.illegalValue t value reason) (.illegalValue t' value reason)
  | decode (reason : String) : Respelled t t' (.decode t reason) (.decode t' reason)
  | unexpectedNull : Respelled t t' (.unexpectedNull t) (.unexpectedNull t')
  | illegalArgument (input reason : String) :
    Respelled t t' (.illegalArgument t input reason) (.illegalArgument t' input reason)

/-- The same results, or errors that are the same but for the spelling of a type. -/
inductive AlikeUpToSpelling {α : Type} (t t' : String) : Except Error α → Except Error α → Prop where
  | done (a : α) : AlikeUpToSpelling t t' (.ok a) (.ok a)
  | failed {e e' : Error} (h : e.Respelled t t' e') : AlikeUpToSpelling t t' (.error e) (.error e')

section

variable {α β : Type} {t t' : String}

theorem alikeUpToSpelling_self (x : Except Error α) : AlikeUpToSpelling t t' x x := by
  cases x with
  | ok a => exact .done a
  | error e => exact .failed (.same e)

theorem alikeUpToSpelling_bind {x y : Except Error α} {f g : α → Except Error β}
    (h : AlikeUpToSpelling t t' x y) (hfg : ∀ a, AlikeUpToSpelling t t' (f a) (g a)) :
    AlikeUpToSpelling t t' (x >>= f) (y >>= g) := by
  cases h with
  | done a => exact hfg a
  | failed h => exact .failed h

theorem alikeUpToSpelling_map {x y : Except Error α} (h : AlikeUpToSpelling t t' x y) (f : α → β) :
    AlikeUpToSpelling t t' (f <$> x) (f <$> y) := by
  cases h with
  | done a => exact .done (f a)
  | failed h => exact .failed h

end

/-! ## Steps that quote the type -/

namespace Frame

variable (type type' : ColumnType)

theorem alike_require (bytes : Option Bytes) :
    AlikeUpToSpelling type.toText type'.toText (require type bytes) (require type' bytes) := by
  cases bytes with
  | some bs => exact .done bs
  | none => exact .failed .unexpectedNull

theorem alike_read (bs : Bytes) :
    AlikeUpToSpelling type.toText type'.toText (read type bs) (read type' bs) := by
  unfold read
  cases split? 4 bs with
  | none => exact .failed (.decode _)
  | some p =>
    dsimp only
    split
    · exact .done _
    split
    · exact .failed (.decode _)
    cases split? (Bytes.toInt p.1).toNat p.2 with
    | none => exact .failed (.decode _)
    | some q => exact .done _

end Frame

namespace Coding

variable {α : Type}

theorem alike_readSlots (type type' : ColumnType) (slots : List Nat) (bs : Bytes)
    (values : List (Option Bytes)) : AlikeUpToSpelling type.toText type'.toText
      (readSlots type slots bs values) (readSlots type' slots bs values) := by
  induction slots generalizing bs values with
  | nil => exact .done _
  | cons slot slots ih =>
    rw [readSlots, readSlots]
    split
    · exact .done _
    · exact alikeUpToSpelling_bind (Frame.alike_read type type' bs) fun p => ih _ _

theorem alike_placeLiterals (u : UserType) (frozen : Bool) (slots : List Nat) (text : List Char)
    (parts : List (List Char × List Char)) (literals : List (Option (List Char))) :
    AlikeUpToSpelling (ColumnType.user u).toText (ColumnType.user { u with frozen }).toText
      (placeLiterals u slots text parts literals)
      (placeLiterals { u with frozen } slots text parts literals) := by
  induction parts generalizing literals with
  | nil => exact .done _
  | cons part parts ih =>
    have hfield : ({ u with frozen } : UserType).field? = u.field? := rfl
    rw [placeLiterals, placeLiterals, hfield]
    split
    · exact .failed (.illegalArgument _ _)
    · split
      · exact ih _
      · exact ih _

end Coding

end CqlWire
