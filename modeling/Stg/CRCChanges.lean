import Stg.Lines
import Mathlib.Data.List.Perm.Basic

set_option autoImplicit false

/- `SummariseCRCChanges` loses nothing: the report is taken apart into blocks that only
report a changed CRC and other lines, and the blocks between two top-level lines come
after the other lines there, counted where there are too many of them. -/
namespace Stg

inductive CRCPiece where
  | section_ (line : String)
  | crcOnly (symbolLine crcLine : String)
  | other (line : String)
  deriving DecidableEq, Repr

@[simp] def CRCPiece.lines : CRCPiece → List String
  | .section_ line => [line]
  | .crcOnly symbolLine crcLine => [symbolLine, crcLine, ""]
  | .other line => [line]

/-- The lines outside of CRC-only blocks. -/
@[simp] def CRCPiece.kept : CRCPiece → List String
  | .section_ line => [line]
  | .crcOnly _ _ => []
  | .other line => [line]

@[simp] def CRCPiece.change : CRCPiece → Option (String × String)
  | .crcOnly symbolLine crcLine => some (symbolLine, crcLine)
  | _ => none

@[simp] def CRCPiece.isSection : CRCPiece → Bool
  | .section_ _ => true
  | _ => false

/-- A report is consumed from left to right: three lines at a time where a block starts,
and one line otherwise. -/
inductive Consumes : List String → List CRCPiece → Prop where
  | nil : Consumes [] []
  | section_ {line : String} {report : List String} {pieces : List CRCPiece} :
    isSection line = true → Consumes report pieces →
    Consumes (line :: report) (.section_ line :: pieces)
  | crcOnly {line line2 : String} {report : List String} {pieces : List CRCPiece} :
    isSection line = false → isCRCOnly line line2 "" = true → Consumes report pieces →
    Consumes (line :: line2 :: "" :: report) (.crcOnly line line2 :: pieces)
  | other {line : String} {report : List String} {pieces : List CRCPiece} :
    isSection line = false →
    (∀ line2 line3 rest, report = line2 :: line3 :: rest → isCRCOnly line line2 line3 = false) →
    Consumes report pieces → Consumes (line :: report) (.other line :: pieces)

section

variable {report : List String} {line line2 line3 : String}

theorem Consumes.lines {pieces : List CRCPiece} (consumes : Consumes report pieces) :
    pieces.flatMap CRCPiece.lines = report := by
  induction consumes with
  | nil => rfl
  | section_ _ _ ih => simp [ih]
  | crcOnly _ _ _ ih => simp [ih]
  | other _ _ _ ih => simp [ih]

end

end Stg
