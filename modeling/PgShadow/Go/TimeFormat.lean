/-
# Times as text

`time.Time.Format` for the parts of a layout that the guard uses: `2006-01-02`,
`15:04:05.000000` and `-07:00`. A time is counted in nanoseconds since 1970, its zone
is the offset from UTC in seconds.

Key definitions: `civil`, `formatDate`, `formatClock`, `formatZone`.
Key theorems: `apostrophe_notMem_formatDate` and its siblings.
-/
import PgShadow.Go.Netip

namespace PgShadow

/-- The year, month and day of a day counted from 1970-01-01, in the Gregorian
calendar. The years are taken to start in March, in eras of 400. -/
def civil (day : ℤ) : ℤ × ℕ × ℕ :=
  let z := day + 719468
  let era := z / 146097
  let ofEra := (z % 146097).toNat
  let year := (ofEra - ofEra / 1460 + ofEra / 36524 - ofEra / 146096) / 365
  let ofYear := ofEra - (365 * year + year / 4 - year / 100)
  let m := (5 * ofYear + 2) / 153
  let month := if m < 10 then m + 3 else m - 9
  (year + era * 400 + (if month ≤ 2 then 1 else 0), month, ofYear - (153 * m + 2) / 5 + 1)

example : civil 0 = (1970, 1, 1) ∧ civil 19782 = (2024, 2, 29) ∧ civil (-719163) = (0, 12, 31) := by decide

/-- `appendInt` to nothing. -/
def appendInt (n : ℤ) (width : ℕ) : Bytes :=
  let digits := formatUint 10 n.natAbs
  (if n < 0 then [chr '-'] else []) ++ (List.replicate (width - digits.length) (chr '0') ++ digits)

/-- The seconds on the clock of the zone. -/
def localSeconds (t offset : ℤ) : ℤ := t / 1000000000 + offset

/-- `2006-01-02`. -/
def formatDate (t offset : ℤ) : Bytes :=
  let (year, month, day) := civil (localSeconds t offset / 86400)
  appendInt year 4 ++ chr '-' :: (appendInt month 2 ++ chr '-' :: appendInt day 2)

/-- `15:04:05.000000`. -/
def formatClock (t offset : ℤ) : Bytes :=
  let sec := localSeconds t offset % 86400
  appendInt (sec / 3600) 2 ++ chr ':' :: (appendInt (sec / 60 % 60) 2 ++ chr ':' :: (appendInt (sec % 60) 2 ++
    chr '.' :: appendInt (t % 1000000000 / 1000) 6))

/-- `-07:00`. -/
def formatZone (offset : ℤ) : Bytes :=
  let zone := (offset.tdiv 60).natAbs
  chr (if offset.tdiv 60 < 0 then '-' else '+') ::
    (appendInt (zone / 60 : ℕ) 2 ++ chr ':' :: appendInt (zone % 60 : ℕ) 2)

/-! ### No apostrophes -/

theorem apostrophe_notMem_appendInt (n : ℤ) (width : ℕ) : 39 ∉ appendInt n width := by
  intro h
  rcases List.mem_append.mp h with h | h
  · split at h
    · exact absurd h (by decide)
    · cases h
  rcases List.mem_append.mp h with h | h
  · exact absurd (List.eq_of_mem_replicate h) (by decide)
  exact absurd (digit_of_mem_formatUint h).1 (by decide)

theorem apostrophe_notMem_formatDate (t offset : ℤ) : 39 ∉ formatDate t offset := by
  simp [formatDate, apostrophe_notMem_appendInt]
  decide

theorem apostrophe_notMem_formatClock (t offset : ℤ) : 39 ∉ formatClock t offset := by
  simp [formatClock, apostrophe_notMem_appendInt]
  decide

theorem apostrophe_notMem_formatZone (offset : ℤ) : 39 ∉ formatZone offset := by
  simp [formatZone, apostrophe_notMem_appendInt]
  split <;> decide

end PgShadow
