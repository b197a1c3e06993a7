/-
  Mccp.Logger.Text
  ────────────────
  **THE TEXT OF A MESSAGE: the buffers of mccp_log_emit.**

  The header is printed into an array of 4096 characters, and the message behind
  it, at the place that the length of the whole header says: of a header that
  has been cut, it is a place outside.  The date is printed into one of 32.

      LocalTime.sGetDateStr — the date, if there is room for it
      header, composeMsg    — what comes before the message, and both of them
      emitText              — what s_do_log() is given (executable)
      message_text          — when there is a text, and what it says
-/
import Mccp.Lib.Buffer
import Mccp.Logger.Emit

namespace Mccp.Logger

open CString (nul cstr printAt printed)

/-! ## §1. The parts of a header. -/

/-- What localtime() finds; the zone is a name. -/
structure LocalTime where
  wday : Fin 7
  mon : Fin 12
  mday : Fin 32
  hour : Fin 24
  min : Fin 60
  sec : Fin 61
  year : Nat
  zone : CString

/-- The name of a day of the week, `%a`, and of a month, `%h`, in the C locale. -/
def dayName (wday : Fin 7) : List Char :=
  (["Sun", "Mon", "Tue", "Wed", "Thu", "Fri", "Sat"].getD wday "").toList

def monthName (mon : Fin 12) : List Char :=
  (["Jan", "Feb", "Mar", "Apr", "May", "Jun", "Jul", "Aug", "Sep", "Oct", "Nov",
    "Dec"].getD mon "").toList

/-- Two decimal digits. -/
def twoDigits (n : Nat) : List Char := [Nat.digitChar (n / 10), Nat.digitChar (n % 10)]

/-- `[%a %h %d %T %Z %Y]`. -/
def LocalTime.text (x : LocalTime) : List Char :=
  '[' :: dayName x.wday ++ ' ' :: monthName x.mon ++ ' ' :: twoDigits x.mday ++
    ' ' :: twoDigits x.hour ++ ':' :: twoDigits x.min ++ ':' :: twoDigits x.sec ++
    ' ' :: x.zone.chars ++ ' ' :: Nat.toDigits 10 x.year ++ [']']

/-- `s_get_date_str`, with room for 32 characters: when there is too little, the
contents of the buffer are undefined. -/
def LocalTime.sGetDateStr (x : LocalTime) : Option (List Char) :=
  if x.text.length + 1 ≤ 32 then some x.text else none

/-- `s_get_level_str`. -/
def Level.sGetLevelStr : Level → List Char
  | .unknown => []
  | .debug => "[DEBUG]".toList
  | .trace => "[TRACE]".toList
  | .info => "[INFO ]".toList
  | .notice => "[NOTE ]".toList
  | .warning => "[WARN ]".toList
  | .error => "[ERROR]".toList
  | .fatal => "[FATAL]".toList

/-- The emitting thread; its name fits into 32 characters, if there is one. -/
structure Emitter where
  pid : UInt32
  tid : UInt64
  thd_name : Option CString
  name_fits : ∀ name ∈ thd_name, name.chars.length ≤ 31

/-- `%016x`. -/
def hexSixteen (n : Nat) : List Char :=
  List.replicate (16 - (Nat.toDigits 16 n).length) '0' ++ Nat.toDigits 16 n

/-- `thd_info_buf`, an array of 1024. -/
def Emitter.thdInfo (e : Emitter) : List Char :=
  let name := e.thd_name.elim [] CString.chars
  let text := '[' :: Nat.toDigits 10 e.pid.toNat ++ ":0x".toList ++ hexSixteen e.tid.toNat ++
    if name ≠ [] then ':' :: name ++ [']'] else [']']
  text.take 1023

/-- Where the message is emitted. -/
structure Site where
  file : CString
  line : Int32
  func : CString

/-- `%d`. -/
def decimal : Int → List Char
  | .ofNat n => Nat.toDigits 10 n
  | .negSucc n => '-' :: Nat.toDigits 10 (n + 1)

/-- `%s%s%s:%s:%d:%s: `. -/
def header (date_buf : List Char) (lv : Level) (e : Emitter) (site : Site) : List Char :=
  date_buf ++ lv.sGetLevelStr ++ e.thdInfo ++ ':' :: site.file.chars ++
    ':' :: decimal site.line.toInt ++ ':' :: site.func.chars ++ ": ".toList

/-! ## §2. The message. -/

/-- The header and the message, in an array of 4096 that holds anything before.
`none` is a write outside of it. -/
def composeMsg (hdr body : List Char) : Option (List Char) := do
  let msg ← printAt (List.replicate 4096 '?') 0 4096 hdr
  -- the length of all of the header, without '\0'
  let hdr_len := printed hdr
  let left_len : UInt64 := 4096 - hdr_len
  if left_len > 1 then printAt msg hdr_len.toNat (left_len - 1).toNat body else some msg

/-- What `date_buf` holds, unless it is undefined. -/
def LogState.dateBuf (l : LogState) (now : LocalTime) : Option (List Char) :=
  if l.s_do_date then now.sGetDateStr else some []

/-- What `mccp_log_emit` composes; `body` is what vsnprintf() makes of the format
and its arguments, although va_end() has been called on them by then. -/
def emitText (l : LogState) (now : LocalTime) (lv : Level) (e : Emitter) (site : Site)
    (body : CString) : Option (List Char) := do
  let date_buf ← l.dateBuf now
  composeMsg (header date_buf lv e site) body.chars

/-! ## §3. The array. -/

variable {hdr body msg : List Char}

/-- What is left of 4096, where the header has not been cut. -/
theorem left_len_of_le {x : UInt64} (h : x.toNat ≤ 4096) :
    (4096 - x).toNat = 4096 - x.toNat := by
  have hall : (4096 : UInt64).toNat = 4096 := rfl
  rw [UInt64.toNat_sub, hall]
  omega

/-- Otherwise the difference wraps, and the room seems large. -/
theorem left_len_of_gt {x : UInt64} (h : 4096 < x.toNat) : 4096 < (4096 - x).toNat := by
  have hlt := x.toNat_lt
  have hall : (4096 : UInt64).toNat = 4096 := rfl
  rw [UInt64.toNat_sub, hall]
  omega

theorem printed_of_gt (h : 4096 < hdr.length) : 4096 < (printed hdr).toNat := by
  by_cases hint : hdr.length < 2 ^ 31
  · rwa [CString.printed_toNat hint]
  · unfold printed
    rw [if_neg hint]
    decide

/-- The header is printed at the beginning. -/
theorem print_header (hdr : List Char) :
    ∃ msg, printAt (List.replicate 4096 '?') 0 4096 hdr = some msg ∧ msg.length = 4096 ∧
      msg.take (min hdr.length 4095) = hdr.take 4095 := by
  have hfits : 0 + (min hdr.length (4096 - 1) + 1) ≤ (List.replicate 4096 '?').length := by
    rw [List.length_replicate]
    omega
  have heq := CString.printAt_eq (by decide) hfits
  refine ⟨_, heq, (CString.length_printAt heq).trans List.length_replicate, ?_⟩
  have htake := CString.take_printAt (Nat.zero_le _) (by decide) heq
  rwa [Nat.zero_add, List.take_zero, List.nil_append] at htake

/-- A header that has been cut: the message is written outside of the array. -/
theorem composeMsg_cut (h : 4096 < hdr.length) : composeMsg hdr body = none := by
  obtain ⟨msg, hmsg, hlen, -⟩ := print_header hdr
  have hprinted := printed_of_gt h
  have hleft := left_len_of_gt hprinted
  have hone : (4096 - printed hdr) > 1 :=
    UInt64.lt_iff_toNat_lt.mpr (Nat.lt_trans (by decide) hleft)
  have hsize : 0 < (4096 - printed hdr - 1).toNat := by
    rw [UInt64.toNat_sub_of_le _ _ (UInt64.le_of_lt hone)]
    exact Nat.sub_pos_of_lt (Nat.lt_trans (by decide) hleft)
  unfold composeMsg
  rw [hmsg, Option.bind_eq_bind, Option.bind_some]
  dsimp only
  rw [if_pos hone]
  exact CString.printAt_none hsize (by omega)

/-- **A header that fits**: both are written, and cut to what the array holds. -/
theorem composeMsg_fits (h : hdr.length ≤ 4096) (hhdr : nul ∉ hdr) (hbody : nul ∉ body) :
    ∃ msg, composeMsg hdr body = some msg ∧ msg.length = 4096 ∧
      cstr msg 0 = hdr.take 4095 ++ body.take (4094 - hdr.length) := by
  obtain ⟨msg, hmsg, hlen, htake⟩ := print_header hdr
  have hprinted : (printed hdr).toNat = hdr.length :=
    CString.printed_toNat (Nat.lt_of_le_of_lt h (by decide))
  have hleft : (4096 - printed hdr).toNat = 4096 - hdr.length := by
    rw [left_len_of_le (hprinted.trans_le h), hprinted]
  have htext : cstr msg 0 = hdr.take 4095 :=
    CString.cstr_printAt (by simp) hhdr (by decide) hmsg
  unfold composeMsg
  rw [hmsg, Option.bind_eq_bind, Option.bind_some]
  dsimp only
  split
  next hone =>
    have hroom : 1 < 4096 - hdr.length := by
      rw [← hleft]
      exact UInt64.lt_iff_toNat_lt.mp hone
    have hsize : (4096 - printed hdr - 1).toNat = 4095 - hdr.length := by
      have hsub : (4096 - printed hdr - 1).toNat =
          (4096 - printed hdr).toNat - (1 : UInt64).toNat :=
        UInt64.toNat_sub_of_le _ _ (UInt64.le_of_lt hone)
      have hnat : (1 : UInt64).toNat = 1 := rfl
      rw [hsub, hleft, hnat]
      omega
    have hall : hdr.take 4095 = hdr := List.take_of_length_le (by omega)
    -- the place is that of the terminator of the header
    have hmin : min hdr.length 4095 = hdr.length := Nat.min_eq_left (by omega)
    have hbefore : msg.take hdr.length = hdr :=
      calc msg.take hdr.length = msg.take (min hdr.length 4095) := by rw [hmin]
        _ = hdr.take 4095 := htake
        _ = hdr := hall
    have hfits : hdr.length + (min body.length (4095 - hdr.length - 1) + 1) ≤ msg.length := by
      rw [hlen]
      omega
    have hpos : 0 < 4095 - hdr.length := by omega
    have hbodyAt := CString.printAt_eq hpos hfits
    rw [hprinted, hsize]
    refine ⟨_, hbodyAt, (CString.length_printAt hbodyAt).trans hlen, ?_⟩
    rw [CString.cstr_printAt (by rwa [hbefore]) hbody hpos hbodyAt, hbefore, hall,
      Nat.sub_right_comm]
  next hnot =>
    have hfull : 4094 - hdr.length = 0 := by
      have hle : ¬ 1 < 4096 - hdr.length := by
        rw [← hleft]
        exact fun hlt => hnot (UInt64.lt_iff_toNat_lt.mpr hlt)
      omega
    refine ⟨msg, rfl, hlen, ?_⟩
    rw [htext, hfull, List.take_zero, List.append_nil]

/-! ## §4. Headers. -/

theorem digitChar_ne_nul (n : Nat) : nul ≠ Nat.digitChar n := by
  grind [Nat.digitChar]

/-- No digit is a terminator, in any base. -/
theorem nul_notMem_toDigits {b : Nat} (hb : 1 < b) (n : Nat) : nul ∉ Nat.toDigits b n := by
  induction n using Nat.strongRecOn with
  | _ n ih =>
    rw [Nat.toDigits_eq_if hb]
    split
    next => exact fun hmem => digitChar_ne_nul n (List.mem_singleton.mp hmem)
    next hle =>
      intro hmem
      obtain hmem | hmem := List.mem_append.mp hmem
      · exact ih (n / b) (Nat.div_lt_self (by omega) hb) hmem
      · exact digitChar_ne_nul (n % b) (List.mem_singleton.mp hmem)

theorem nul_notMem_decimal (i : Int) : nul ∉ decimal i := by
  cases i with
  | ofNat n => exact nul_notMem_toDigits (by decide) n
  | negSucc n =>
    intro hmem
    obtain hmem | hmem := List.mem_cons.mp hmem
    · exact absurd hmem (by decide)
    · exact nul_notMem_toDigits (by decide) (n + 1) hmem

theorem nul_notMem_date (x : LocalTime) : nul ∉ x.text := by
  have hday : ∀ wday : Fin 7, nul ∉ dayName wday := by decide
  have hmonth : ∀ mon : Fin 12, nul ∉ monthName mon := by decide
  have htwo : ∀ n, nul ∉ twoDigits n := by
    intro n hmem
    simp only [twoDigits, List.mem_cons, List.not_mem_nil, or_false] at hmem
    exact hmem.elim (digitChar_ne_nul _) (digitChar_ne_nul _)
  unfold LocalTime.text
  simp only [List.mem_append, List.mem_cons, not_or, hday, hmonth, htwo, x.zone.noNul,
    nul_notMem_toDigits (show 1 < 10 by decide)]
  decide

theorem nul_notMem_thdInfo (e : Emitter) : nul ∉ e.thdInfo := by
  have hhex : nul ∉ hexSixteen e.tid.toNat := by
    unfold hexSixteen
    intro hmem
    obtain hmem | hmem := List.mem_append.mp hmem
    · exact absurd (List.eq_of_mem_replicate hmem) (by decide)
    · exact nul_notMem_toDigits (by decide) _ hmem
  have hname : nul ∉ e.thd_name.elim [] CString.chars := by
    cases e.thd_name with
    | none => exact List.not_mem_nil
    | some name => exact name.noNul
  have hend : nul ∉ (if e.thd_name.elim [] CString.chars ≠ [] then
      ':' :: e.thd_name.elim [] CString.chars ++ [']'] else [']']) := by
    split
    next =>
      simp only [List.mem_append, List.mem_cons, not_or, hname]
      decide
    next => decide
  intro hmem
  have hmem := List.mem_of_mem_take hmem
  simp only [List.mem_append] at hmem
  obtain ((hmem | hmem) | hmem) | hmem := hmem
  · obtain hmem | hmem := List.mem_cons.mp hmem
    · exact absurd hmem (by decide)
    · exact nul_notMem_toDigits (by decide) _ hmem
  · exact absurd hmem (by decide)
  · exact hhex hmem
  · exact hend hmem

theorem nul_notMem_header {date : List Char} (hdate : nul ∉ date) (lv : Level) (e : Emitter)
    (site : Site) : nul ∉ header date lv e site := by
  have hlv : nul ∉ lv.sGetLevelStr := by
    cases lv <;> decide
  unfold header
  simp only [List.mem_append, List.mem_cons, not_or, hdate, hlv, nul_notMem_thdInfo,
    nul_notMem_decimal, site.file.noNul, site.func.noNul]
  decide

theorem length_dayName : ∀ wday : Fin 7, (dayName wday).length = 3 := by decide

theorem length_monthName : ∀ mon : Fin 12, (monthName mon).length = 3 := by decide

theorem length_date (x : LocalTime) :
    x.text.length = 23 + ((Nat.toDigits 10 x.year).length + x.zone.chars.length) := by
  unfold LocalTime.text twoDigits
  simp only [List.length_append, List.length_cons, List.length_nil, length_dayName,
    length_monthName]
  omega

theorem length_toDigits_le {b n k : Nat} (hb : 1 < b) (hk : 0 < k) (h : n < b ^ k) :
    (Nat.toDigits b n).length ≤ k :=
  (Nat.length_toDigits_le_iff hb hk).mpr h

/-- An int has a sign and ten digits at most. -/
theorem length_decimal (line : Int32) : (decimal line.toInt).length ≤ 11 := by
  have hlt := line.toInt_lt
  have hle := line.le_toInt
  cases hi : line.toInt with
  | ofNat n =>
    rw [hi] at hlt
    exact Nat.le_succ_of_le (length_toDigits_le (by decide) (by decide) (by
      have hn : (n : Int) < 2 ^ 31 := hlt
      omega))
  | negSucc n =>
    rw [hi] at hle
    refine Nat.succ_le_succ (length_toDigits_le (by decide) (by decide) ?_)
    omega

theorem length_thdInfo (e : Emitter) : e.thdInfo.length ≤ 63 := by
  have hpid : (Nat.toDigits 10 e.pid.toNat).length ≤ 10 :=
    length_toDigits_le (by decide) (by decide) (Nat.lt_trans e.pid.toNat_lt (by decide))
  have htid : (Nat.toDigits 16 e.tid.toNat).length ≤ 16 :=
    length_toDigits_le (by decide) (by decide) (Nat.lt_of_lt_of_eq e.tid.toNat_lt (by decide))
  have hhex : (hexSixteen e.tid.toNat).length = 16 := by
    unfold hexSixteen
    rw [List.length_append, List.length_replicate]
    omega
  have hname : (e.thd_name.elim [] CString.chars).length ≤ 31 := by
    cases hn : e.thd_name with
    | none => exact Nat.zero_le 31
    | some name => exact e.name_fits name hn
  have hend : (if e.thd_name.elim [] CString.chars ≠ [] then
      ':' :: e.thd_name.elim [] CString.chars ++ [']'] else [']']).length ≤ 33 := by
    split
    next =>
      rw [List.length_append, List.length_cons, List.length_singleton]
      omega
    next => decide
  have hcolon : ":0x".toList.length = 3 := rfl
  unfold Emitter.thdInfo
  dsimp only
  rw [List.length_take, List.length_append, List.length_append, List.length_append,
    List.length_cons, hhex, hcolon]
  omega

/-- **How long a header can be**, but for the names of file and function. -/
theorem length_header {date : List Char} (hdate : date.length ≤ 31) (lv : Level) (e : Emitter)
    (site : Site) : (header date lv e site).length ≤
      117 + (site.file.chars.length + site.func.chars.length) := by
  have hlv : lv.sGetLevelStr.length ≤ 7 := by
    cases lv <;> decide
  have hinfo := length_thdInfo e
  have hline := length_decimal site.line
  have hcolon : ": ".toList.length = 2 := rfl
  unfold header
  simp only [List.length_append, List.length_cons, hcolon]
  omega

/-! ## §5. The text. -/

/-- There is a date if it has room: the year and the zone have eight characters. -/
theorem dateBuf_isSome {l : LogState} {now : LocalTime} : (l.dateBuf now).isSome = true ↔
    (l.s_do_date = true →
      (Nat.toDigits 10 now.year).length + now.zone.chars.length ≤ 8) := by
  unfold LogState.dateBuf
  split
  next hdo =>
    unfold LocalTime.sGetDateStr
    rw [length_date]
    split
    next hroom => exact iff_of_true rfl fun _ => by omega
    next hroom => exact iff_of_false (by simp) fun h => hroom (by have := h hdo; omega)
  next hdo => exact iff_of_true rfl fun h => absurd h hdo

theorem dateBuf_fits {l : LogState} {now : LocalTime} {date : List Char}
    (h : l.dateBuf now = some date) : date.length ≤ 31 ∧ nul ∉ date := by
  unfold LogState.dateBuf at h
  split at h
  next =>
    unfold LocalTime.sGetDateStr at h
    split at h
    next hroom =>
      obtain rfl := Option.some.inj h
      exact ⟨Nat.le_of_succ_le_succ hroom, nul_notMem_date now⟩
    next => exact absurd h (by simp)
  next =>
    obtain rfl := Option.some.inj h
    exact ⟨Nat.zero_le 31, List.not_mem_nil⟩

/-- **The text of a message.**  There is a date exactly if year and zone have room,
and with it a text exactly if the header is no longer than the array; a longer
one makes a write outside of it.  The text is the header, and as much of the
message as there is room for.  Names of 3979 characters together are no danger. -/
theorem message_text (l : LogState) (now : LocalTime) (lv : Level) (e : Emitter) (site : Site)
    (body : CString) :
    ((l.dateBuf now).isSome = true ↔ (l.s_do_date = true →
      (Nat.toDigits 10 now.year).length + now.zone.chars.length ≤ 8)) ∧
    ∀ date, l.dateBuf now = some date →
      ((emitText l now lv e site body).isSome = true ↔ (header date lv e site).length ≤ 4096) ∧
      (∀ msg, emitText l now lv e site body = some msg →
        msg.length = 4096 ∧ cstr msg 0 = (header date lv e site).take 4095 ++
          body.chars.take (4094 - (header date lv e site).length)) ∧
      (site.file.chars.length + site.func.chars.length ≤ 3979 →
        (header date lv e site).length ≤ 4096) := by
  refine ⟨dateBuf_isSome, fun date hdate => ?_⟩
  obtain ⟨hlen, hnul⟩ := dateBuf_fits hdate
  have hemit : emitText l now lv e site body =
      composeMsg (header date lv e site) body.chars := by
    unfold emitText
    rw [hdate, Option.bind_eq_bind, Option.bind_some]
  have hheader := nul_notMem_header hnul lv e site
  rw [hemit]
  refine ⟨⟨fun hsome => ?_, fun hle => ?_⟩, fun msg hmsg => ?_, fun hnames => ?_⟩
  · by_contra hgt
    rw [composeMsg_cut (Nat.not_le.mp hgt)] at hsome
    exact absurd hsome (by simp)
  · obtain ⟨msg, hmsg, -⟩ := composeMsg_fits hle hheader body.noNul
    rw [hmsg]
    rfl
  · have hle : (header date lv e site).length ≤ 4096 := by
      by_contra hgt
      rw [composeMsg_cut (Nat.not_le.mp hgt)] at hmsg
      exact absurd hmsg (by simp)
    obtain ⟨msg', hmsg', hlength, htext⟩ := composeMsg_fits hle hheader body.noNul
    obtain rfl : msg' = msg := Option.some.inj (hmsg'.symm.trans hmsg)
    exact ⟨hlength, htext⟩
  · exact (length_header hlen lv e site).trans (by omega)

/-- A moment in a zone of the given name. -/
def momentIn (zone : CString) : LocalTime where
  wday := 4
  mon := 0
  mday := 1
  hour := 3
  min := 30
  sec := 0
  year := 1970
  zone := zone

def nameless : Emitter where
  pid := 1
  tid := 1
  thd_name := none
  name_fits := fun _ h => absurd h (by simp)

def inMain : Site where
  file := ⟨"a.c".toList, by decide⟩
  line := 7
  func := ⟨"main".toList, by decide⟩

/-- Where the zone is `UTC`, there is a text; the name `+0330` is too long for a
date. -/
theorem message_text_zones :
    (∃ msg, emitText writing (momentIn ⟨"UTC".toList, by decide⟩) .info nameless inMain
      ⟨"hi".toList, by decide⟩ = some msg ∧ msg.length = 4096) ∧
    (writing.dateBuf (momentIn ⟨"+0330".toList, by decide⟩)).isSome = false := by
  constructor
  · have htext := message_text writing (momentIn ⟨"UTC".toList, by decide⟩) .info nameless inMain
      ⟨"hi".toList, by decide⟩
    obtain ⟨date, hdate⟩ := Option.isSome_iff_exists.mp (htext.1.mpr fun _ => by decide)
    obtain ⟨hiff, hgives, hnames⟩ := htext.2 date hdate
    obtain ⟨msg, hmsg⟩ := Option.isSome_iff_exists.mp (hiff.mpr (hnames (by decide)))
    exact ⟨msg, hmsg, (hgives msg hmsg).1⟩
  · refine Bool.eq_false_iff.mpr fun hsome => ?_
    have hroom := (message_text writing (momentIn ⟨"+0330".toList, by decide⟩) .info nameless inMain
      ⟨"hi".toList, by decide⟩).1.mp hsome rfl
    exact absurd hroom (by decide)

end Mccp.Logger
