import NetOrc.Core.Observability
import NetOrc.Data.JsonText

/-!
This module contains the logger, which prints one JSON object a line. It escapes some of the characters
that JSON does not take as they are, so a line with one of the others can not be read back.
-/

namespace NetOrc

open Oflib
open TextFormat
open JsonText

inductive LogLevel where
  | debug
  | info
  | warn
  | error
  deriving DecidableEq, Repr

def toLevelString (level : LogLevel) : Bytes :=
  match level with
  | .debug => text "debug"
  | .info => text "info"
  | .warn => text "warn"
  | .error => text "error"

structure Tm where
  year : Int
  mon : Nat
  mday : Nat
  hour : Nat
  min : Nat
  sec : Nat
  deriving DecidableEq, Repr

def twoDigits (n : Nat) : Bytes := if n < 10 then 0x30 :: decimal n else decimal n

/--
`tm` is what `gmtime_r` makes of the clock.
-/
def nowIso8601Utc (tm : Tm) : Bytes :=
  decimalInt (tm.year + 1900) ++ text "-" ++ twoDigits (tm.mon + 1) ++ text "-" ++ twoDigits tm.mday
    ++ text "T" ++ twoDigits tm.hour ++ text ":" ++ twoDigits tm.min ++ text ":" ++ twoDigits tm.sec
    ++ text "Z"

def escapeChar (c : UInt8) : Bytes :=
  if c = backslash then text "\\\\"
  else if c = quote then text "\\\""
  else if c = lineFeed then text "\\n"
  else if c = carriageReturn then text "\\r"
  else if c = tab then text "\\t"
  else [c]

def escapeJson (value : Bytes) : Bytes := value.flatMap escapeChar

structure Logger where
  serviceName : Bytes := text "netorc"
  debugEnabled : Bool := false
  deriving DecidableEq, Repr

namespace Logger

def setServiceName (logger : Logger) (name : Bytes) : Logger :=
  { logger with serviceName := if name = [] then text "netorc" else name }

def setDebugEnabled (logger : Logger) (enabled : Bool) : Logger :=
  { logger with debugEnabled := enabled }

def renderField (kv : Bytes × Bytes) : Bytes :=
  text ",\"" ++ escapeJson kv.1 ++ text "\":\"" ++ escapeJson kv.2 ++ text "\""

def log (logger : Logger) (now : Tm) (level : LogLevel) (message : Bytes)
    (fields : OrderedMap byteOrder.list Bytes) : Option Bytes :=
  if level = .debug ∧ ¬logger.debugEnabled then
    none
  else
    let oss := text "\x7b"
      ++ text "\"ts\":\"" ++ nowIso8601Utc now ++ text "\","
      ++ text "\"service\":\"" ++ escapeJson logger.serviceName ++ text "\","
      ++ text "\"level\":\"" ++ toLevelString level ++ text "\","
      ++ text "\"message\":\"" ++ escapeJson message ++ text "\""
    let oss := fields.entries.foldl (fun oss kv => oss ++ renderField kv) oss
    some (oss ++ text "\x7d" ++ [lineFeed])

end Logger

/-! What the escapes cover. -/

def isLoggable (b : UInt8) : Bool := 0x20 ≤ b || b = lineFeed || b = carriageReturn || b = tab

theorem isLoggable_of_isUnescaped {b : UInt8} (h : isUnescaped b) : isLoggable b := by
  simp only [isUnescaped, Bool.and_eq_true, decide_eq_true_eq] at h
  simp [isLoggable, h.2]

theorem escapeChar_cases (c : UInt8) :
    (∃ d, escapeChar c = [backslash, d] ∧ unescapeByte d = some c ∧ isLoggable c)
      ∨ (escapeChar c = [c] ∧ isUnescaped c ∧ isLoggable c)
      ∨ (escapeChar c = [c] ∧ c < 0x20 ∧ ¬isLoggable c) := by
  unfold escapeChar
  split
  . next h => exact .inl ⟨backslash, rfl, by rw [h]; rfl, by rw [h]; rfl⟩
  . next hbackslash =>
    split
    . next h => exact .inl ⟨quote, rfl, by rw [h]; rfl, by rw [h]; rfl⟩
    . next hquote =>
      split
      . next h => exact .inl ⟨0x6E, rfl, by rw [h]; rfl, by rw [h]; rfl⟩
      . next hlineFeed =>
        split
        . next h => exact .inl ⟨0x72, rfl, by rw [h]; rfl, by rw [h]; rfl⟩
        . next hcarriageReturn =>
          split
          . next h => exact .inl ⟨0x74, rfl, by rw [h]; rfl, by rw [h]; rfl⟩
          . next htab =>
            by_cases hspace : 0x20 ≤ c
            . exact .inr (.inl ⟨rfl, by simp [isUnescaped, hquote, hbackslash, hspace],
                by simp [isLoggable, hspace]⟩)
            . exact .inr (.inr ⟨rfl, UInt8.not_le.mp hspace,
                by simp [isLoggable, hspace, hlineFeed, hcarriageReturn, htab]⟩)

theorem escapeJson_cons (c : UInt8) (value : Bytes) :
    escapeJson (c :: value) = escapeChar c ++ escapeJson value :=
  List.flatMap_cons

theorem readPieces_escapeJson (value rest : Bytes) :
    readPieces (escapeJson value ++ quote :: rest)
      =
    if value.all isLoggable then some (value.map .byte, rest) else none := by
  induction value with
  | nil => exact readPieces_quote rest
  | cons c value ih =>
    rw [escapeJson_cons, List.append_assoc, List.all_cons]
    rcases escapeChar_cases c with
      ⟨d, hescape, hd, hc⟩ | ⟨hescape, hplain, hc⟩ | ⟨hescape, hcontrol, hc⟩
    . rw [hescape, List.cons_append, List.singleton_append, readPieces_escape hd, ih, hc, Bool.true_and]
      split
      . rfl
      . rfl
    . rw [hescape, List.singleton_append, readPieces_unescaped hplain, ih, hc, Bool.true_and]
      split
      . rfl
      . rfl
    . rw [hescape, List.singleton_append, readPieces_control hcontrol, if_neg (by simp [hc])]

theorem readString_escapeJson (value rest : Bytes) :
    readString (escapeJson value ++ quote :: rest)
      =
    if value.all isLoggable then some (value, rest) else none := by
  rw [readString, readPieces_escapeJson]
  split
  . rw [Option.map_some]
    dsimp only
    rw [decodePieces_bytes]
  . rfl

theorem escapeChar_of_unescaped {c : UInt8} (h : isUnescaped c) : escapeChar c = [c] := by
  have hplain : ∀ d, ¬isUnescaped d → c ≠ d := by
    rintro d hd rfl
    exact hd h
  rw [escapeChar, if_neg (hplain _ (by decide)), if_neg (hplain _ (by decide)),
    if_neg (hplain _ (by decide)), if_neg (hplain _ (by decide)), if_neg (hplain _ (by decide))]

theorem escapeJson_of_unescaped {value : Bytes} (h : ∀ c ∈ value, isUnescaped c) :
    escapeJson value = value := by
  induction value with
  | nil => rfl
  | cons c value ih =>
    rw [escapeJson_cons, escapeChar_of_unescaped (h c (by simp)), ih (fun d hd => h d (by simp [hd])),
      List.singleton_append]

theorem validUtf8_escapeChar {c : UInt8} (h : c ≤ 0x7F) : validUtf8 (escapeChar c) := by
  unfold escapeChar
  split_ifs
  . decide
  . decide
  . decide
  . decide
  . decide
  . exact validUtf8_cons h rfl

theorem validUtf8_escapeJson {value : Bytes} (h : validUtf8 value) : validUtf8 (escapeJson value) := by
  have hother (c : UInt8) (hc : c > 0x7F) : escapeChar c = [c] := by
    have hascii : ∀ d ≤ 0x7F, c ≠ d := by
      rintro d hd rfl
      exact UInt8.not_lt.mpr hd hc
    have hspace : 0x20 ≤ c := UInt8.le_trans (by decide) (UInt8.le_of_lt hc)
    apply escapeChar_of_unescaped
    simp [isUnescaped, hascii quote (by decide), hascii backslash (by decide), hspace]
  exact isUtf8_flatMap (fun c hc => validUtf8_escapeChar hc) hother (by decide) h

theorem lineFeed_notMem_escapeJson (value : Bytes) : lineFeed ∉ escapeJson value := by
  intro h
  rcases List.mem_flatMap.mp h with ⟨c, _, hmem⟩
  rcases escapeChar_cases c with
    ⟨d, hescape, hd, _⟩ | ⟨hescape, hplain, _⟩ | ⟨hescape, _, hc⟩
  . rw [hescape, List.mem_pair] at hmem
    rcases hmem with hmem | rfl
    . contradiction
    . contradiction
  . rw [hescape, List.mem_singleton] at hmem
    subst hmem
    contradiction
  . rw [hescape, List.mem_singleton] at hmem
    subst hmem
    exact hc (by decide)

def jsonEscaper : StringWriter where
  write := escapeJson
  holds value := value.all isLoggable
  readString_write := readString_escapeJson
  validUtf8_write := validUtf8_escapeJson

/-! The line. -/

def isStampByte (b : UInt8) : Bool := isDigit b || b = minus || b = colon || b = 0x54 || b = 0x5A

theorem all_decimal (n : Nat) : (decimal n).all isStampByte := by
  rw [List.all_eq_true]
  intro b hb
  simp [isStampByte, isDigit_of_mem_decimal hb]

theorem all_decimalInt (i : Int) : (decimalInt i).all isStampByte := by
  cases i with
  | ofNat n => exact all_decimal n
  | negSucc n => exact all_decimal (n + 1)

theorem all_twoDigits (n : Nat) : (twoDigits n).all isStampByte := by
  unfold twoDigits
  split
  . exact all_decimal n
  . exact all_decimal n

theorem all_nowIso8601Utc (tm : Tm) : (nowIso8601Utc tm).all isStampByte := by
  have htext : ∀ s ∈ ["-", "T", ":", "Z"], (text s).all isStampByte := by decide
  simp only [nowIso8601Utc, List.all_append, all_decimalInt, all_twoDigits, htext "-" (by simp),
    htext "T" (by simp), htext ":" (by simp), htext "Z" (by simp), Bool.true_and]

theorem bounds_of_isStampByte {b : UInt8} (h : isStampByte b) :
    0x20 ≤ b ∧ b ≤ 0x7F ∧ b ≠ quote ∧ b ≠ backslash := by
  simp only [isStampByte, Bool.or_eq_true, decide_eq_true_eq] at h
  rcases h with (((h | rfl) | rfl) | rfl) | rfl
  . simp only [isDigit, Bool.and_eq_true, decide_eq_true_eq] at h
    refine ⟨UInt8.le_trans (by decide) h.1, UInt8.le_trans h.2 (by decide), ?_, ?_⟩
    . rintro rfl
      revert h
      decide
    . rintro rfl
      revert h
      decide
  . decide
  . decide
  . decide
  . decide

theorem isUnescaped_of_mem_nowIso8601Utc {tm : Tm} {b : UInt8} (h : b ∈ nowIso8601Utc tm) :
    isUnescaped b := by
  have hbounds := bounds_of_isStampByte (List.all_eq_true.mp (all_nowIso8601Utc tm) b h)
  simp [isUnescaped, hbounds]

theorem validUtf8_nowIso8601Utc (tm : Tm) : validUtf8 (nowIso8601Utc tm) := by
  apply validUtf8_of_ascii
  intro b hb
  exact (bounds_of_isStampByte (List.all_eq_true.mp (all_nowIso8601Utc tm) b hb)).2.1

namespace Logger

variable (logger : Logger) (now : Tm) (level : LogLevel) (message : Bytes)
variable (fields : OrderedMap byteOrder.list Bytes)

def context : List (Bytes × Bytes) :=
  [(text "service", logger.serviceName), (text "level", toLevelString level), (text "message", message)]
    ++ fields.entries

theorem renderField_eq (kv : Bytes × Bytes) : renderField kv = comma :: jsonEscaper.writeMember kv := by
  have hopen : text ",\"" = [comma, quote] := by decide
  have hbetween : text "\":\"" = [quote, colon, quote] := by decide
  have hclose : text "\"" = [quote] := by decide
  simp [renderField, StringWriter.writeMember, jsonEscaper, hopen, hbetween, hclose]

theorem log_eq :
    logger.log now level message fields
      =
    if level = .debug ∧ ¬logger.debugEnabled then none
    else some (jsonEscaper.writeObject (text "ts", nowIso8601Utc now)
      (logger.context level message fields) ++ [lineFeed]) := by
  have hlevel : escapeJson (toLevelString level) = toLevelString level := by
    cases level
    all_goals rfl
  have hnow : escapeJson (nowIso8601Utc now) = nowIso8601Utc now :=
    escapeJson_of_unescaped (fun c hc => isUnescaped_of_mem_nowIso8601Utc hc)
  have hfields : fields.entries.flatMap renderField
      = fields.entries.flatMap (fun m => comma :: jsonEscaper.writeMember m) :=
    List.flatMap_congr (fun kv _ => renderField_eq kv)
  have hts : text "\"ts\":\"" = quote :: (escapeJson (text "ts") ++ [quote, colon, quote]) := by decide
  have hservice : text "\"service\":\""
      = quote :: (escapeJson (text "service") ++ [quote, colon, quote]) := by decide
  have hname : text "\"level\":\""
      = quote :: (escapeJson (text "level") ++ [quote, colon, quote]) := by decide
  have hmessage : text "\"message\":\""
      = quote :: (escapeJson (text "message") ++ [quote, colon, quote]) := by decide
  have hopen : text "\x7b" = [openBrace] := by decide
  have hnext : text "\"," = [quote, comma] := by decide
  have hend : text "\"" = [quote] := by decide
  have hclose : text "\x7d" = [closeBrace] := by decide
  unfold log
  split
  . rfl
  . dsimp only
    rw [List.foldl_append_eq_append, ← List.flatMap_def, hfields]
    simp [StringWriter.writeObject, StringWriter.writeMember, context, jsonEscaper, hlevel, hnow,
      hts, hservice, hname, hmessage, hopen, hnext, hend, hclose]

/--
One line, which is the object with the timestamp and the context.
-/
def IsFaithful (line : Bytes) : Prop :=
  ∃ body, line = body ++ [lineFeed] ∧ lineFeed ∉ body
    ∧ decode body
      = some (.object ((text "ts", .string (nowIso8601Utc now))
        :: (logger.context level message fields).map (fun m => (m.1, .string m.2))))

/--
What is logged has no control character but a tab and the ones that end a line.
-/
def IsLoggable : Prop :=
  logger.serviceName.all isLoggable ∧ message.all isLoggable
    ∧ ∀ kv ∈ fields.entries, kv.1.all isLoggable ∧ kv.2.all isLoggable

theorem isLoggable_setServiceName (name : Bytes) :
    (logger.setServiceName name).IsLoggable message fields
      ↔
    name.all isLoggable ∧ message.all isLoggable
      ∧ ∀ kv ∈ fields.entries, kv.1.all isLoggable ∧ kv.2.all isLoggable := by
  have hdefault : (text "netorc").all isLoggable := by decide
  unfold IsLoggable setServiceName
  dsimp only
  split
  . next hname => rw [hname, hdefault, List.all_nil]
  . rfl

theorem holdsMember_iff (kv : Bytes × Bytes) :
    jsonEscaper.holdsMember kv ↔ kv.1.all isLoggable ∧ kv.2.all isLoggable :=
  Bool.and_eq_true_iff

theorem isLoggable_context :
    ((text "ts", nowIso8601Utc now) :: logger.context level message fields).all jsonEscaper.holdsMember
      ↔
    logger.IsLoggable message fields := by
  have hts : (text "ts").all isLoggable := by decide
  have hservice : (text "service").all isLoggable := by decide
  have hname : (text "level").all isLoggable := by decide
  have hmessage : (text "message").all isLoggable := by decide
  have hlevel : (toLevelString level).all isLoggable := by
    cases level
    all_goals rfl
  have hnow : (nowIso8601Utc now).all isLoggable :=
    List.all_eq_true.mpr
      (fun c hc => isLoggable_of_isUnescaped (isUnescaped_of_mem_nowIso8601Utc hc))
  have hall : ((text "ts", nowIso8601Utc now) :: logger.context level message fields).all
        jsonEscaper.holdsMember
      = (logger.serviceName.all isLoggable && (message.all isLoggable
        && fields.entries.all jsonEscaper.holdsMember)) := by
    rw [List.all_cons, context, List.all_append, List.all_cons, List.all_cons, List.all_cons,
      List.all_nil]
    simp only [StringWriter.holdsMember, jsonEscaper, hts, hservice, hname, hmessage, hlevel, hnow,
      Bool.true_and, Bool.and_true, Bool.and_assoc]
  rw [hall, Bool.and_eq_true, Bool.and_eq_true, List.all_eq_true (p := jsonEscaper.holdsMember)]
  simp only [holdsMember_iff, IsLoggable]

theorem decode_context (hservice : validUtf8 logger.serviceName) (hmessage : validUtf8 message)
    (hfields : ∀ kv ∈ fields.entries, validUtf8 kv.1 ∧ validUtf8 kv.2) :
    decode (jsonEscaper.writeObject (text "ts", nowIso8601Utc now)
        (logger.context level message fields))
      = some (.object ((text "ts", .string (nowIso8601Utc now))
        :: (logger.context level message fields).map (fun m => (m.1, .string m.2))))
      ↔
    logger.IsLoggable message fields := by
  have hutf8 : ∀ m ∈ (text "ts", nowIso8601Utc now) :: logger.context level message fields,
      validUtf8 m.1 ∧ validUtf8 m.2 := by
    have hlevel : validUtf8 (toLevelString level) := by
      cases level
      all_goals rfl
    have hnames : ∀ s ∈ ["ts", "service", "level", "message"], validUtf8 (text s) := by decide
    intro m hm
    simp only [context, List.mem_cons, List.mem_append, List.not_mem_nil] at hm
    rcases hm with rfl | (rfl | rfl | rfl | hm) | hm
    . exact ⟨hnames _ (by simp), validUtf8_nowIso8601Utc now⟩
    . exact ⟨hnames _ (by simp), hservice⟩
    . exact ⟨hnames _ (by simp), hlevel⟩
    . exact ⟨hnames _ (by simp), hmessage⟩
    . contradiction
    . exact hfields m hm
  rw [jsonEscaper.decode_writeObject hutf8, ← logger.isLoggable_context now level]
  split
  . next h => exact iff_of_true rfl h
  . next h => exact iff_of_false nofun h

/--
Among texts in UTF-8, these are the ones a reader of the line gets back.
-/
theorem log_faithful_iff (hservice : validUtf8 logger.serviceName) (hmessage : validUtf8 message)
    (hfields : ∀ kv ∈ fields.entries, validUtf8 kv.1 ∧ validUtf8 kv.2) :
    (∀ line ∈ logger.log now level message fields, logger.IsFaithful now level message fields line)
      ↔
    (level = .debug ∧ ¬logger.debugEnabled) ∨ logger.IsLoggable message fields := by
  rw [log_eq]
  split
  . next hnone => simp [hnone]
  . next hsome =>
    have hline : lineFeed ∉ jsonEscaper.writeObject (text "ts", nowIso8601Utc now)
        (logger.context level message fields) :=
      jsonEscaper.notMem_writeObject (by decide) lineFeed_notMem_escapeJson _ _
    rw [← logger.decode_context now level message fields hservice hmessage hfields]
    constructor
    . intro h
      rcases h _ rfl with ⟨body, hbody, _, hdecode⟩
      rw [← List.append_cancel_right hbody] at hdecode
      exact .inr hdecode
    . rintro (hnone | hdecode)
      . contradiction
      . rintro line ⟨rfl⟩
        exact ⟨_, rfl, hline, hdecode⟩

theorem log_faithful_iff_quoted :
    (∀ line ∈ ({} : Logger).log ⟨126, 2, 14, 9, 5, 7⟩ .warn (text "rejected")
        (OrderedMap.upsert ∅ (text "reason") (fun _ => text "\"a\\b\"\n" ++ [0xC3, 0xA9])),
      ({} : Logger).IsFaithful ⟨126, 2, 14, 9, 5, 7⟩ .warn (text "rejected")
        (OrderedMap.upsert ∅ (text "reason") (fun _ => text "\"a\\b\"\n" ++ [0xC3, 0xA9])) line)
      ↔
    (LogLevel.warn = .debug ∧ ¬({} : Logger).debugEnabled)
      ∨ ({} : Logger).IsLoggable (text "rejected")
        (OrderedMap.upsert ∅ (text "reason") (fun _ => text "\"a\\b\"\n" ++ [0xC3, 0xA9])) :=
  ({} : Logger).log_faithful_iff _ _ _ _ (by decide) (by decide) (by decide)

/--
A message that is the character U+0001 comes out as it is.
-/
theorem not_log_faithful :
    ¬∀ (logger : Logger) (now : Tm) (level : LogLevel) (message : Bytes)
      (fields : OrderedMap byteOrder.list Bytes), validUtf8 logger.serviceName → validUtf8 message
      → (∀ kv ∈ fields.entries, validUtf8 kv.1 ∧ validUtf8 kv.2)
      → ∀ line ∈ logger.log now level message fields,
        logger.IsFaithful now level message fields line := by
  intro h
  have hline := log_eq {} ⟨126, 2, 14, 9, 5, 7⟩ .info [0x01] ∅
  rw [if_neg (by decide)] at hline
  have hfaithful := h {} _ .info [0x01] ∅ (by decide) (by decide) (by decide) _ hline
  rcases hfaithful with ⟨body, hbody, _, hdecode⟩
  rw [← List.append_cancel_right hbody, decode_context _ _ _ _ _ (by decide) (by decide) (by decide)]
    at hdecode
  exact absurd hdecode.2.1 (by decide)

end Logger

end NetOrc
