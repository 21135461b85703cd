import WebServer.Lib.Calendar
import WebServer.Mymuduo.Logger

namespace WebServer.Mymuduo

open WebServer.Lib

namespace Tm

structure Valid (tm : Tm) : Prop where
  mon_lt : tm.tm_mon < 12
  mday_le : tm.tm_mday ≤ 31
  hour_lt : tm.tm_hour < 24
  min_lt : tm.tm_min < 60
  sec_le : tm.tm_sec ≤ 60

def minute (tm : Tm) : Tm := { tm with tm_sec := 0 }

def minuteText (tm : Tm) : Bytes :=
  padded 32 4 (tm.tm_year + 1900) ++ (ascii "/" ++ (padded 48 2 (tm.tm_mon + 1) ++ (ascii "/" ++
    (padded 48 2 tm.tm_mday ++ (ascii " " ++ (padded 48 2 tm.tm_hour ++ (ascii ":" ++
      (padded 48 2 tm.tm_min ++ ascii ":"))))))))

end Tm

theorem padded_natCast (c : UInt8) (width n : Nat) :
    padded c width n = decimalDigits.fill c width n := by
  have hneg : ¬((n : Int) < 0) := by omega
  rw [padded, Alphabet.fill, Alphabet.writeInt, if_neg hneg, Int.natAbs_natCast]

theorem length_padded (c : UInt8) {width n : Nat} (hwidth : 0 < width) (hn : n < 10 ^ width) :
    (padded c width n).length = width := by
  rw [padded_natCast, decimalDigits.length_fill c hwidth hn]

theorem padded_zeros_inj {width m n : Nat} (h : padded 48 width m = padded 48 width n) : m = n := by
  rw [padded_natCast, padded_natCast] at h
  exact decimalDigits.fill_injective (.inr (by decide)) width h

theorem padded_blanks_inj {width m n : Nat} (h : padded 32 width m = padded 32 width n) :
    m = n := by
  rw [padded_natCast, padded_natCast] at h
  exact decimalDigits.fill_injective (.inl (by decide)) width h

theorem append_inj_of_sep {a a' sep b b' : Bytes} (h : a ++ (sep ++ b) = a' ++ (sep ++ b'))
    (hlength : a.length = a'.length) : a = a' ∧ b = b' := by
  obtain ⟨ha, hrest⟩ := List.append_inj h hlength
  exact ⟨ha, List.append_cancel_left hrest⟩

namespace Tm

variable {tm tm' : Tm}

theorem Valid.length_minuteText (h : tm.Valid) (hyear : tm.tm_year + 1900 ≤ 9999) :
    tm.minuteText.length = 17 := by
  obtain ⟨hmon, hmday, hhour, hmin, -⟩ := h
  have htwo (n : Nat) (hn : n < 100) : (padded 48 2 n).length = 2 :=
    length_padded 48 (by decide) hn
  have hyear_length : (padded 32 4 (tm.tm_year + 1900 : Nat)).length = 4 :=
    length_padded 32 (by decide) (by omega)
  have hmon_length := htwo (tm.tm_mon + 1) (by omega)
  have hmday_length := htwo tm.tm_mday (by omega)
  have hhour_length := htwo tm.tm_hour (by omega)
  have hmin_length := htwo tm.tm_min (by omega)
  push_cast at hyear_length hmon_length
  have hslash : (ascii "/").length = 1 := rfl
  have hblank : (ascii " ").length = 1 := rfl
  have hcolon : (ascii ":").length = 1 := rfl
  simp only [minuteText, List.length_append, hyear_length, hmon_length, hmday_length, hhour_length,
    hmin_length, hslash, hblank, hcolon]

theorem eq_of_minute (hminute : tm.minute = tm'.minute) (hsec : tm.tm_sec = tm'.tm_sec) :
    tm = tm' := by
  cases tm
  cases tm'
  simp only [minute, mk.injEq, and_true] at hminute hsec ⊢
  exact ⟨hminute.1, hminute.2.1, hminute.2.2.1, hminute.2.2.2.1, hminute.2.2.2.2, hsec⟩

/-- Every field that is kept has one width, so the texts of two minutes are the same only if all
fields are. -/
theorem Valid.minuteText_inj (h : tm.Valid) (h' : tm'.Valid) (hyear : tm.tm_year + 1900 ≤ 9999)
    (hyear' : tm'.tm_year + 1900 ≤ 9999) :
    tm.minuteText = tm'.minuteText ↔ tm.minute = tm'.minute := by
  have htwo (n n' : Nat) (hn : n < 100) (hn' : n' < 100) :
      (padded 48 2 n).length = (padded 48 2 n').length := by
    rw [length_padded 48 (by decide) hn, length_padded 48 (by decide) hn']
  obtain ⟨hmon, hmday, hhour, hmin, -⟩ := h
  obtain ⟨hmon', hmday', hhour', hmin', -⟩ := h'
  constructor
  · intro heq
    have hfour : (padded 32 4 (tm.tm_year + 1900 : Nat)).length =
        (padded 32 4 (tm'.tm_year + 1900 : Nat)).length := by
      rw [length_padded 32 (by decide) (by omega), length_padded 32 (by decide) (by omega)]
    obtain ⟨hyear, heq⟩ := append_inj_of_sep heq hfour
    obtain ⟨hmon, heq⟩ := append_inj_of_sep heq
      (htwo (tm.tm_mon + 1) (tm'.tm_mon + 1) (by omega) (by omega))
    obtain ⟨hmday, heq⟩ := append_inj_of_sep heq (htwo _ _ (by omega) (by omega))
    obtain ⟨hhour, heq⟩ := append_inj_of_sep heq (htwo _ _ (by omega) (by omega))
    have hmin := padded_zeros_inj (List.append_cancel_right heq)
    have hyear := padded_blanks_inj (m := tm.tm_year + 1900) (n := tm'.tm_year + 1900) hyear
    have hmon := padded_zeros_inj (m := tm.tm_mon + 1) (n := tm'.tm_mon + 1) hmon
    have hmday := padded_zeros_inj hmday
    have hhour := padded_zeros_inj hhour
    simp only [minute, mk.injEq, and_true]
    omega
  · intro heq
    simp only [minute, mk.injEq, and_true] at heq
    obtain ⟨hyear, hmon, hmday, hhour, hmin⟩ := heq
    rw [minuteText, minuteText, hyear, hmon, hmday, hhour, hmin]

end Tm

namespace Timestamp

def seconds (t : Timestamp) : Int := t.microSecondsSinceEpoch.tdiv 1000000

def microseconds (t : Timestamp) : Nat := (t.microSecondsSinceEpoch.tmod 1000000).toNat

/-- A time from 1970 on whose local year has four digits. -/
structure Dated (localtime : Int → Tm) (t : Timestamp) : Prop where
  nonneg : 0 ≤ t.microSecondsSinceEpoch
  year_le : (localtime t.seconds).tm_year + 1900 ≤ 9999

variable {localtime : Int → Tm} {t : Timestamp}

theorem Dated.seconds_nonneg (h : Dated localtime t) : 0 ≤ t.seconds :=
  Int.tdiv_nonneg h.nonneg (by decide)

theorem microseconds_lt (t : Timestamp) : t.microseconds < 10 ^ 6 := by
  have hlt := Int.tmod_lt_of_pos t.microSecondsSinceEpoch (b := 1000000) (by decide)
  rw [microseconds]
  omega

theorem Dated.castInt_tmod (h : Dated localtime t) :
    castInt (t.microSecondsSinceEpoch.tmod 1000000) = t.microseconds := by
  have hlt := t.microseconds_lt
  have hnonneg := Int.tmod_nonneg 1000000 h.nonneg
  rw [microseconds] at hlt ⊢
  rw [Int.toNat_of_nonneg hnonneg]
  exact castInt_eq (by omega) (by omega)

theorem eq_of_parts {t u : Timestamp} (ht : 0 ≤ t.microSecondsSinceEpoch)
    (hu : 0 ≤ u.microSecondsSinceEpoch) (hseconds : t.seconds = u.seconds)
    (hmicroseconds : t.microseconds = u.microseconds) : t = u := by
  cases t
  cases u
  simp only [seconds, microseconds, mk.injEq] at *
  rw [Int.tdiv_eq_ediv_of_nonneg ht, Int.tdiv_eq_ediv_of_nonneg hu] at hseconds
  rw [Int.tmod_eq_emod_of_nonneg ht, Int.tmod_eq_emod_of_nonneg hu] at hmicroseconds
  omega

end Timestamp

namespace LogStream

theorem append_follows {s : LogStream} {a : LogLine} (h : s.Follows a) {data : Bytes}
    (hdata : data.length < 2 ^ 31) :
    ∃ t, s.append data = some t ∧ t.Follows (a.append data) :=
  insert_follows h (.string data) (measured_of_length_lt (i := .string data) hdata s)

end LogStream

namespace Logger

/-- The first bytes of a record: what `formatTime` writes to the empty stream. -/
def timePrefix (clock : Clock) : Option Bytes := (formatTime .new clock).map (·.buffer.content)

theorem formatTime_new (clock : Clock) :
    ∃ s a, formatTime .new clock = some s ∧ s.Follows a ∧
      a.data =
        ((clock.localtime clock.now.seconds).minuteText ++
          padded 48 2 (clock.localtime clock.now.seconds).tm_sec).take 17 ++
        (padded 48 6 (castInt (clock.now.microSecondsSinceEpoch.tmod 1000000)) ++
          ascii " ").take 7 := by
  generalize hmicroseconds :
    padded 48 6 (castInt (clock.now.microSecondsSinceEpoch.tmod 1000000)) ++ ascii " " = buf
  generalize htime : (clock.localtime clock.now.seconds).minuteText ++
    padded 48 2 (clock.localtime clock.now.seconds).tm_sec = t_time
  have htime_length : (t_time.take 17).length ≤ 17 := List.length_take_le _ _
  have hbuf_length : (buf.take 7).length ≤ 7 := List.length_take_le _ _
  have htime_lt : (t_time.take 17).length < 2 ^ 31 := by omega
  have hbuf_lt : (buf.take 7).length < 2 ^ 31 := by omega
  obtain ⟨s₁, hs₁, hfollows₁⟩ := LogStream.append_follows LogStream.follows_new htime_lt
  obtain ⟨s₂, hs₂, hfollows₂⟩ := LogStream.append_follows hfollows₁ hbuf_lt
  have hdata₁ : ((FixedBuffer.new : LogLine).append (t_time.take 17)).data = t_time.take 17 :=
    FixedBuffer.data_append (by rw [FixedBuffer.avail, FixedBuffer.new, kSmallBuffer]; simp)
  refine ⟨s₂, _, ?_, hfollows₂, ?_⟩
  · have hformat : formatTime .new clock =
        (LogStream.new.append (t_time.take 17)).bind fun s => s.append (buf.take 7) := by
      rw [← htime, ← hmicroseconds]
      simp only [formatTime, Tm.minuteText, Timestamp.seconds, List.append_assoc,
        Option.bind_eq_bind]
    rw [hformat, hs₁, Option.bind_some, hs₂]
  · rw [FixedBuffer.data_append, hdata₁]
    rw [FixedBuffer.avail, hdata₁, kSmallBuffer]
    omega

/-- A time of four-digit year has all of its prefix but the seconds. -/
theorem timePrefix_eq {localtime : Int → Tm} (hlocal : ∀ s, 0 ≤ s → (localtime s).Valid)
    {t : Timestamp} (ht : t.Dated localtime) (tid : IntegerType.int.Value) :
    timePrefix ⟨t, localtime, tid⟩ =
      some ((localtime t.seconds).minuteText ++ (padded 48 6 t.microseconds ++ ascii " ")) := by
  obtain ⟨s, a, hs, hfollows, ha⟩ := formatTime_new ⟨t, localtime, tid⟩
  have hminute := (hlocal _ ht.seconds_nonneg).length_minuteText ht.year_le
  have hmicroseconds : (padded 48 6 t.microseconds ++ ascii " ").length ≤ 7 := by
    have hsix := length_padded 48 (by decide) t.microseconds_lt
    have hblank : (ascii " ").length = 1 := rfl
    rw [List.length_append, hsix, hblank]
  rw [timePrefix, hs, Option.map_some, hfollows.1.content_eq, ha, ht.castInt_tmod,
    List.take_left' hminute, List.take_of_length_le hmicroseconds]

theorem timePrefix_eq_iff {localtime : Int → Tm} (hlocal : ∀ s, 0 ≤ s → (localtime s).Valid)
    {t u : Timestamp} (ht : t.Dated localtime) (hu : u.Dated localtime)
    (tid tid' : IntegerType.int.Value) :
    timePrefix ⟨t, localtime, tid⟩ = timePrefix ⟨u, localtime, tid'⟩ ↔
      (localtime t.seconds).minute = (localtime u.seconds).minute ∧
        t.microseconds = u.microseconds := by
  have hlength : (localtime t.seconds).minuteText.length =
      (localtime u.seconds).minuteText.length := by
    rw [(hlocal _ ht.seconds_nonneg).length_minuteText ht.year_le,
      (hlocal _ hu.seconds_nonneg).length_minuteText hu.year_le]
  rw [timePrefix_eq hlocal ht, timePrefix_eq hlocal hu, Option.some.injEq,
    ← (hlocal _ ht.seconds_nonneg).minuteText_inj
      (hlocal _ hu.seconds_nonneg) ht.year_le hu.year_le]
  constructor
  · intro heq
    obtain ⟨hminute, hrest⟩ := List.append_inj heq hlength
    exact ⟨hminute, padded_zeros_inj (List.append_cancel_right hrest)⟩
  · rintro ⟨hminute, hmicroseconds⟩
    rw [hminute, hmicroseconds]

/-- The prefixes of two times differ exactly when the times are in two minutes or differ in their
microseconds: the seconds are what is cut off. -/
theorem timePrefix_ne_iff {localtime : Int → Tm} (hlocal : ∀ s, 0 ≤ s → (localtime s).Valid)
    {t u : Timestamp} (ht : t.Dated localtime) (hu : u.Dated localtime)
    (tid tid' : IntegerType.int.Value) :
    ∃ p q, timePrefix ⟨t, localtime, tid⟩ = some p ∧ timePrefix ⟨u, localtime, tid'⟩ = some q ∧
      (p ≠ q ↔ (localtime t.seconds).minute ≠ (localtime u.seconds).minute ∨
        t.microseconds ≠ u.microseconds) := by
  have hp := timePrefix_eq hlocal ht tid
  have hq := timePrefix_eq hlocal hu tid'
  refine ⟨_, _, hp, hq, ?_⟩
  rw [← not_and_or, ← timePrefix_eq_iff hlocal ht hu tid tid', hp, hq, Option.some.injEq]

end Logger

def Tm.ofDate (date : Date) (second : Nat) : Tm :=
  ⟨date.year, date.month, date.day, second / 3600, second % 3600 / 60, second % 60⟩

theorem Tm.valid_ofDate {date : Date} (hdate : date.Valid) {second : Nat}
    (hsecond : second < 86400) : (ofDate date second).Valid := by
  refine ⟨hdate.month_lt, hdate.day_le, ?_, ?_, ?_⟩
  · exact Nat.div_lt_of_lt_mul hsecond
  · exact Nat.div_lt_of_lt_mul (Nat.mod_lt _ (by decide))
  · exact (Nat.mod_lt second (by decide)).le

theorem Tm.ofDate_inj {date date' : Date} {second second' : Nat}
    (h : ofDate date second = ofDate date' second') : date = date' ∧ second = second' := by
  cases date
  cases date'
  simp only [ofDate, mk.injEq, Date.mk.injEq] at h ⊢
  omega

/-- The calendar of a machine whose time zone is UTC. -/
def gmtime (seconds : Int) : Tm :=
  .ofDate (.ofDay (seconds / 86400).toNat) (seconds % 86400).toNat

/-- What the conversion of a time is taken to be: no two seconds have the same members. -/
structure IsCalendar (localtime : Int → Tm) : Prop where
  valid : ∀ s, 0 ≤ s → (localtime s).Valid
  injective : ∀ {s r}, 0 ≤ s → 0 ≤ r → localtime s = localtime r → s = r

theorem isCalendar_gmtime : IsCalendar gmtime where
  valid s _ := Tm.valid_ofDate (Date.valid_ofDay _) (by omega)
  injective := by
    intro s r hs hr h
    obtain ⟨hdate, hsecond⟩ := Tm.ofDate_inj h
    have hdays := Date.ofDay_injective hdate
    omega

namespace Logger

/-- Different times have different prefixes. -/
def PrefixDetermines (localtime : Int → Tm) : Prop :=
  ∀ t u tid tid', t.Dated localtime → u.Dated localtime → t ≠ u →
    timePrefix ⟨t, localtime, tid⟩ ≠ timePrefix ⟨u, localtime, tid'⟩

theorem tm_sec_ne {localtime : Int → Tm} (hlocal : IsCalendar localtime) {t u : Timestamp}
    (ht : t.Dated localtime) (hu : u.Dated localtime) (hne : t ≠ u)
    {tid tid' : IntegerType.int.Value}
    (h : timePrefix ⟨t, localtime, tid⟩ = timePrefix ⟨u, localtime, tid'⟩) :
    (localtime t.seconds).tm_sec ≠ (localtime u.seconds).tm_sec := by
  intro hsec
  obtain ⟨hminute, hmicroseconds⟩ := (timePrefix_eq_iff hlocal.valid ht hu tid tid').mp h
  have hlocaltime : localtime t.seconds = localtime u.seconds :=
    Tm.eq_of_minute hminute hsec
  have hseconds := hlocal.injective ht.seconds_nonneg hu.seconds_nonneg hlocaltime
  exact hne (Timestamp.eq_of_parts ht.nonneg hu.nonneg hseconds hmicroseconds)

/-- The first two seconds of 1970 have one prefix. -/
theorem not_prefixDetermines : ¬∀ localtime, IsCalendar localtime → PrefixDetermines localtime := by
  intro h
  refine h gmtime isCalendar_gmtime ⟨0⟩ ⟨1000000⟩ 1 1 ?_ ?_ (by decide) ?_
  · exact ⟨by decide, by decide +kernel⟩
  · exact ⟨by decide, by decide +kernel⟩
  · decide +kernel

theorem timePrefix_ne_iff_nextMinute :
    ∃ p q, timePrefix ⟨⟨0⟩, gmtime, 1⟩ = some p ∧ timePrefix ⟨⟨60000000⟩, gmtime, 1⟩ = some q ∧
      p ≠ q := by
  obtain ⟨p, q, hp, hq, hne⟩ := timePrefix_ne_iff isCalendar_gmtime.valid (t := ⟨0⟩)
    (u := ⟨60000000⟩) ⟨by decide, by decide +kernel⟩ ⟨by decide, by decide +kernel⟩ 1 1
  exact ⟨p, q, hp, hq, hne.mpr (.inl fun h => absurd (congrArg Tm.tm_min h) (by decide +kernel))⟩

end Logger

end WebServer.Mymuduo
