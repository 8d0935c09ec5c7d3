import Emis.Library.Numerals
import Mathlib.Data.Int.Notation

/-!
# Instants and calendar days

A JavaScript `Date` is a number of milliseconds. A calendar date is the number
of days since 1970-01-01; for years of four digits the order of the texts
`YYYY-MM-DD` is the order of these numbers.
-/

namespace Emis

open Numerals

/-- A JavaScript `Date`: whole milliseconds since the epoch. -/
abbrev Instant := ℤ

/-- A calendar date, counted from 1970-01-01. -/
abbrev Day := ℤ

/-- `addDays` of `common/dates.ts`. -/
def addDays (date : Day) (days : ℤ) : Day := date + days

structure CalendarParts where
  year : ℤ
  month : ℕ
  day : ℕ
  deriving DecidableEq, Repr

/-- Year, month and day of a date in the proleptic Gregorian calendar. The years
are counted from March, which puts the leap day last. -/
def civilOf (date : Day) : CalendarParts :=
  let z := date + 719468
  let era := z / 146097
  let doe := (z - era * 146097).toNat
  let yoe := (doe - doe / 1460 + doe / 36524 - doe / 146096) / 365
  let doy := doe - (365 * yoe + yoe / 4 - yoe / 100)
  let mp := (5 * doy + 2) / 153
  let month := if mp < 10 then mp + 3 else mp - 9
  { year := yoe + era * 400 + (if month ≤ 2 then 1 else 0)
    month := month
    day := doy - (153 * mp + 2) / 5 + 1 }

example : civilOf 20710 = ⟨2026, 9, 14⟩ := by decide

/-- The day with these parts; the years are counted from March. -/
def dayOf (year month day : ℕ) : Day :=
  let y : ℤ := if month ≤ 2 then (year : ℤ) - 1 else year
  let era := y / 400
  let yoe := y - era * 400
  let mp : ℤ := if month ≤ 2 then month + 9 else (month : ℤ) - 3
  let doy := (153 * mp + 2) / 5 + day - 1
  era * 146097 + (yoe * 365 + yoe / 4 - yoe / 100 + doy) - 719468

/-- A year in an ISO text: four digits, or a sign and six. -/
def isoYear (year : ℤ) : List Char :=
  if 0 ≤ year ∧ year ≤ 9999 then numeral 4 year.toNat
  else (if 0 ≤ year then '+' else '-') :: numeral 6 year.natAbs

/-- `Date.prototype.toISOString`. -/
def toISOString (date : Instant) : List Char :=
  let parts := civilOf (date / 86400000)
  let ms := (date % 86400000).toNat
  isoYear parts.year ++ '-' :: numeral 2 parts.month ++ '-' :: numeral 2 parts.day ++
    'T' :: numeral 2 (ms / 3600000) ++ ':' :: numeral 2 (ms / 60000 % 60) ++
    ':' :: numeral 2 (ms / 1000 % 60) ++ '.' :: numeral 3 (ms % 1000) ++ ['Z']

example : toISOString 1790330400000 = "2026-09-25T10:00:00.000Z".toList := by decide

def digitsValue (digits : List Char) : ℕ := digits.foldl (fun n ch => n * 10 + (ch.toNat - '0'.toNat)) 0

/-- `z.iso.date()`: YYYY-MM-DD of a day that exists. -/
def isoDate : List Char → Option Day
  | [y₁, y₂, y₃, y₄, '-', m₁, m₂, '-', d₁, d₂] =>
      if [y₁, y₂, y₃, y₄, m₁, m₂, d₁, d₂].all Char.isDigit then
        let year := digitsValue [y₁, y₂, y₃, y₄]
        let month := digitsValue [m₁, m₂]
        let day := digitsValue [d₁, d₂]
        if civilOf (dayOf year month day) = ⟨year, month, day⟩ then some (dayOf year month day) else none
      else none
  | _ => none

example : isoDate "2024-02-29".toList = some 19782 ∧ isoDate "2023-02-29".toList = none := by decide +kernel

end Emis
