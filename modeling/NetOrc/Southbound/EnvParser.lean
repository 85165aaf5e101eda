import NetOrc.Data.TextFormat
import NetOrc.Data.Trim
import NetOrc.OpenFlow.Basic

/-!
This module contains `loadDotEnv`, and shows that it reads back the assignments of a file of mixed lines.
-/

namespace NetOrc

open Oflib
open TextFormat
open Trim

def nul : UInt8 := 0x00

def isTrimmedByte (b : UInt8) : Bool := b = space || b = tab || b = carriageReturn || b = lineFeed

abbrev Environment := Bytes → Option Bytes

def cStr (str : Bytes) : Bytes := str.takeWhile (fun b => b ≠ nul)

/--
`setenv` with `overwrite`. It refuses a name that is empty or has an equals sign.
-/
def setenv (env : Environment) (name value : Bytes) : Environment :=
  if name = [] ∨ equalsSign ∈ name then env else Function.update env name (some value)

/--
The lines that `std::getline` returns one after another, the first of which starts with `line`.
-/
def getlines (line content : Bytes) : List Bytes :=
  match content with
  | [] => if line = [] then [] else [line]
  | b :: rest => if b = lineFeed then line :: getlines [] rest else getlines (line ++ [b]) rest

def readEnvLine (env : Environment) (line : Bytes) : Environment :=
  let line := trim isTrimmedByte line
  if line = [] ∨ line.head? = some hash then
    env
  else
    match line.idxOf? equalsSign with
    | none => env
    | some eq =>
      let key := trim isTrimmedByte (line.take eq)
      let value := trim isTrimmedByte (line.drop (eq + 1))
      if key ≠ [] then setenv env (cStr key) (cStr value) else env

/--
`file` is the content of the file, if it can be opened.
-/
def loadDotEnv (file : Option Bytes) (env : Environment) : Bool × Environment :=
  match file with
  | none => (false, env)
  | some content => (true, (getlines [] content).foldl readEnvLine env)

/-! The lines of a file. -/

def isPad (b : UInt8) : Bool := b = space || b = tab || b = carriageReturn

structure Assignment where
  key : Bytes
  value : Bytes
  key_ne_nil : key ≠ []
  trimmed_key : Trimmed isTrimmedByte key
  trimmed_value : Trimmed isTrimmedByte value
  head_key : key.head? ≠ some hash
  equalsSign_key : equalsSign ∉ key
  lineFeed_key : lineFeed ∉ key
  lineFeed_value : lineFeed ∉ value
  nul_value : nul ∉ value

structure Padding where
  bytes : Bytes
  isPad : ∀ b ∈ bytes, isPad b

/--
The lines that assign nothing: comments, blank lines, lines without an equals sign, and lines with an
empty key.
-/
inductive AssignsNothing : Bytes → Prop where
  | comment (pad : Padding) (rest : Bytes) : AssignsNothing (pad.bytes ++ hash :: rest)
  | blank (pad : Padding) : AssignsNothing pad.bytes
  | noEqualsSign {line : Bytes} (h : equalsSign ∉ line) : AssignsNothing line
  | emptyKey (pad : Padding) (rest : Bytes) : AssignsNothing (pad.bytes ++ equalsSign :: rest)

inductive EnvLine where
  | assignment (a : Assignment) (beforeKey afterKey beforeValue afterValue : Padding)
  | other (line : Bytes) (h : AssignsNothing line) (hline : lineFeed ∉ line)

namespace EnvLine

def render (line : EnvLine) : Bytes :=
  match line with
  | .assignment a beforeKey afterKey beforeValue afterValue =>
    beforeKey.bytes ++ a.key ++ afterKey.bytes ++ equalsSign
      :: (beforeValue.bytes ++ a.value ++ afterValue.bytes)
  | .other line _ _ => line

def assigned (line : EnvLine) : Option Assignment :=
  match line with
  | .assignment a _ _ _ _ => some a
  | .other _ _ _ => none

def file (lines : List EnvLine) (final : Bool) : Bytes :=
  if final then unlines (lines.map render) else (unlines (lines.map render)).dropLast

end EnvLine

theorem isTrimmedByte_of_isPad {b : UInt8} (h : isPad b) : isTrimmedByte b := by
  unfold isTrimmedByte
  unfold isPad at h
  rw [h, Bool.true_or]

theorem Padding.isTrimmedByte (pad : Padding) : ∀ b ∈ pad.bytes, isTrimmedByte b :=
  fun b hb => isTrimmedByte_of_isPad (pad.isPad b hb)

theorem Padding.not_mem (pad : Padding) {b : UInt8} (hb : NetOrc.isPad b = false) : b ∉ pad.bytes := by
  intro hmem
  have hpad := pad.isPad b hmem
  rw [hb] at hpad
  contradiction

theorem cStr_of_not_mem {str : Bytes} (h : nul ∉ str) : cStr str = str := by
  apply List.takeWhile_eq_self_iff.mpr
  intro b hb
  rw [decide_eq_true_eq]
  rintro rfl
  exact h hb

theorem idxOf?_append_cons {key : Bytes} (h : equalsSign ∉ key) (rest : Bytes) :
    (key ++ equalsSign :: rest).idxOf? equalsSign = some key.length := by
  induction key with
  | nil => simp [List.idxOf?, List.findIdx?_cons]
  | cons b key ih =>
    rw [List.mem_cons, not_or] at h
    have hb : (b == equalsSign) = false := by simpa using Ne.symm h.1
    have ih := ih h.2
    unfold List.idxOf? at ih ⊢
    rw [List.cons_append, List.findIdx?_cons, hb, ih]
    rfl

/-! One line. -/

namespace Assignment

theorem trimmed_append (a : Assignment) {rest : Bytes} (hne : rest ≠ [])
    (hlast : ∀ b ∈ rest.getLast?, ¬isTrimmedByte b) : Trimmed isTrimmedByte (a.key ++ rest) where
  head := by
    intro b hb
    rw [List.head?_append_of_ne_nil _ a.key_ne_nil] at hb
    exact a.trimmed_key.head b hb
  last := by
    intro b hb
    rw [List.getLast?_append_of_ne_nil _ hne] at hb
    exact hlast b hb

theorem readEnvLine_of_trim (a : Assignment) (hnul : nul ∉ a.key) (afterKey : Padding)
    {line value : Bytes}
    (hline : trim isTrimmedByte line = a.key ++ (afterKey.bytes ++ equalsSign :: value))
    (hvalue : trim isTrimmedByte value = a.value) (env : Environment) :
    readEnvLine env line = Function.update env a.key (some a.value) := by
  have hstart : ¬(a.key ++ (afterKey.bytes ++ equalsSign :: value) = []
      ∨ (a.key ++ (afterKey.bytes ++ equalsSign :: value)).head? = some hash) := by
    rw [List.head?_append_of_ne_nil _ a.key_ne_nil]
    simp [a.head_key]
  have hsplit : (a.key ++ (afterKey.bytes ++ equalsSign :: value)).idxOf? equalsSign
      = some (a.key ++ afterKey.bytes).length := by
    rw [← List.append_assoc]
    apply idxOf?_append_cons
    rw [List.mem_append, not_or]
    exact ⟨a.equalsSign_key, afterKey.not_mem (by decide)⟩
  have hdrop : (a.key ++ afterKey.bytes ++ equalsSign :: value).drop
      ((a.key ++ afterKey.bytes).length + 1) = value := by
    rw [List.drop_append]
    simp
  have hkey : trim isTrimmedByte ([] ++ (a.key ++ afterKey.bytes)) = a.key :=
    trim_append (by simp) a.trimmed_key afterKey.isTrimmedByte
  have hset : ¬(a.key = [] ∨ equalsSign ∈ a.key) := by
    simp [a.key_ne_nil, a.equalsSign_key]
  unfold readEnvLine
  dsimp only
  rw [hline, if_neg hstart, hsplit]
  dsimp only
  rw [← List.append_assoc, List.take_left, hdrop, hvalue]
  rw [List.nil_append] at hkey
  rw [hkey, if_pos a.key_ne_nil, cStr_of_not_mem hnul, cStr_of_not_mem a.nul_value, setenv, if_neg hset]

theorem readEnvLine_render (a : Assignment) (hnul : nul ∉ a.key)
    (beforeKey afterKey beforeValue afterValue : Padding) (env : Environment) :
    readEnvLine env (EnvLine.assignment a beforeKey afterKey beforeValue afterValue).render
      =
    Function.update env a.key (some a.value) := by
  by_cases hvalue : a.value = []
  . -- the blanks behind the equals sign are trimmed off with those at the end of the line
    have htrimmed : Trimmed isTrimmedByte (a.key ++ (afterKey.bytes ++ equalsSign :: [])) := by
      apply a.trimmed_append
      . simp
      . simp
        decide
    have hback : ∀ b ∈ beforeValue.bytes ++ afterValue.bytes, isTrimmedByte b := by
      intro b hb
      rcases List.mem_append.mp hb with hb | hb
      . exact beforeValue.isTrimmedByte b hb
      . exact afterValue.isTrimmedByte b hb
    have hread : trim isTrimmedByte [] = a.value := by
      rw [hvalue]
      rfl
    apply a.readEnvLine_of_trim hnul afterKey _ hread
    have htrim := trim_append beforeKey.isTrimmedByte htrimmed hback
    simpa [EnvLine.render, hvalue] using htrim
  . have htrimmed : Trimmed isTrimmedByte
        (a.key ++ (afterKey.bytes ++ equalsSign :: (beforeValue.bytes ++ a.value))) := by
      apply a.trimmed_append
      . simp
      . rw [List.getLast?_append_of_ne_nil _ (by simp), ← List.cons_append,
          List.getLast?_append_of_ne_nil _ hvalue]
        exact a.trimmed_value.last
    have hread : trim isTrimmedByte (beforeValue.bytes ++ (a.value ++ [])) = a.value :=
      trim_append beforeValue.isTrimmedByte a.trimmed_value (by simp)
    rw [List.append_nil] at hread
    apply a.readEnvLine_of_trim hnul afterKey _ hread
    have htrim := trim_append beforeKey.isTrimmedByte htrimmed afterValue.isTrimmedByte
    simpa [EnvLine.render] using htrim

end Assignment

theorem readEnvLine_of_assignsNothing {line : Bytes} (h : AssignsNothing line) (env : Environment) :
    readEnvLine env line = env := by
  unfold readEnvLine
  dsimp only
  cases h with
  | comment pad rest =>
    rw [trim_append_cons pad.isTrimmedByte (by decide), if_pos (.inr rfl)]
  | blank pad =>
    rw [trim_of_all pad.isTrimmedByte, if_pos (.inl rfl)]
  | noEqualsSign h =>
    have hnone : (trim isTrimmedByte line).idxOf? equalsSign = none := by
      rw [List.idxOf?_eq_none_iff]
      exact fun hmem => h (mem_of_mem_trim hmem)
    split
    . rfl
    . rw [hnone]
  | emptyKey pad rest =>
    have hsplit := idxOf?_append_cons (List.not_mem_nil (a := equalsSign)) (rest.rdropWhile isTrimmedByte)
    rw [List.nil_append] at hsplit
    rw [trim_append_cons pad.isTrimmedByte (by decide), if_neg (by simp; decide), hsplit]
    rfl

/-! A whole file. -/

theorem getlines_append (front line rest : Bytes) (h : lineFeed ∉ line) :
    getlines front (line ++ lineFeed :: rest) = (front ++ line) :: getlines [] rest := by
  induction line generalizing front with
  | nil => rw [List.nil_append, getlines, if_pos rfl, List.append_nil]
  | cons b line ih =>
    rw [List.mem_cons, not_or] at h
    rw [List.cons_append, getlines, if_neg (Ne.symm h.1), ih (front ++ [b]) h.2, List.append_assoc]
    rfl

theorem getlines_unlines {lines : List Bytes} (h : ∀ line ∈ lines, lineFeed ∉ line) (rest : Bytes) :
    getlines [] (unlines lines ++ rest) = lines ++ getlines [] rest := by
  induction lines with
  | nil => rfl
  | cons line lines ih =>
    have hline : lineFeed ∉ line := h line (by simp)
    have hlines : ∀ line ∈ lines, lineFeed ∉ line := fun l hl => h l (by simp [hl])
    have hcons : unlines (line :: lines) ++ rest = line ++ lineFeed :: (unlines lines ++ rest) := by
      simp [unlines]
    rw [hcons, getlines_append [] line _ hline, ih hlines]
    rfl

theorem getlines_of_not_mem {line : Bytes} (h : lineFeed ∉ line) (front : Bytes) :
    getlines front line = if front ++ line = [] then [] else [front ++ line] := by
  induction line generalizing front with
  | nil => rw [List.append_nil, getlines]
  | cons b line ih =>
    rw [List.mem_cons, not_or] at h
    rw [getlines, if_neg (Ne.symm h.1), ih h.2, List.append_assoc, List.singleton_append]

namespace EnvLine

theorem lineFeed_render (line : EnvLine) : lineFeed ∉ line.render := by
  cases line with
  | assignment a beforeKey afterKey beforeValue afterValue =>
    have hpad : ∀ pad : Padding, lineFeed ∉ pad.bytes := fun pad => pad.not_mem (by decide)
    have hequals : lineFeed ≠ equalsSign := by decide
    simp [render, hpad, hequals, a.lineFeed_key, a.lineFeed_value]
  | other line h hline => exact hline

theorem forall_lineFeed (lines : List EnvLine) : ∀ line ∈ lines.map render, lineFeed ∉ line := by
  intro line hline
  rcases List.mem_map.mp hline with ⟨line, _, rfl⟩
  exact line.lineFeed_render

theorem foldl_getlines_file (lines : List EnvLine) (final : Bool) (env : Environment) :
    (getlines [] (file lines final)).foldl readEnvLine env = (lines.map render).foldl readEnvLine env := by
  cases final with
  | true =>
    have hlines := getlines_unlines (forall_lineFeed lines) []
    rw [List.append_nil, getlines, if_pos rfl, List.append_nil] at hlines
    rw [file, if_pos rfl, hlines]
  | false =>
    rw [file, if_neg Bool.false_ne_true]
    rcases List.eq_nil_or_concat lines with rfl | ⟨lines, line, rfl⟩
    . rfl
    . have hunlines : (unlines ((lines.concat line).map render)).dropLast
          = unlines (lines.map render) ++ line.render := by
        simp [unlines]
      rw [hunlines, getlines_unlines (forall_lineFeed lines), getlines_of_not_mem line.lineFeed_render,
        List.nil_append, List.concat_eq_append, List.map_append, List.foldl_append, List.foldl_append]
      split
      . next hnil =>
        have hblank : AssignsNothing line.render := hnil ▸ .blank ⟨[], by simp⟩
        exact (readEnvLine_of_assignsNothing hblank _).symm
      . rfl

def lastValue (lines : List EnvLine) (name : Bytes) : Option Bytes :=
  ((lines.filterMap assigned).filter (fun a => a.key = name)).getLast?.map Assignment.value

theorem foldl_readEnvLine (lines : List EnvLine)
    (hnul : ∀ a ∈ lines.filterMap assigned, nul ∉ a.key) (env : Environment) (name : Bytes) :
    (lines.map render).foldl readEnvLine env name = (lastValue lines name).or (env name) := by
  induction lines using List.reverseRecOn with
  | nil => rfl
  | append_singleton lines line ih =>
    rw [List.filterMap_append] at hnul
    have ih := ih (fun a ha => hnul a (List.mem_append_left _ ha))
    unfold lastValue at ih ⊢
    rw [List.map_append, List.map_singleton, List.foldl_concat, List.filterMap_append, List.filter_append]
    cases line with
    | assignment a beforeKey afterKey beforeValue afterValue =>
      have ha : nul ∉ a.key := hnul a (by simp [assigned])
      rw [a.readEnvLine_render ha]
      by_cases hname : a.key = name
      . subst hname
        simp [assigned]
      . rw [Function.update_of_ne (Ne.symm hname), ih]
        simp [assigned, hname]
    | other line h hline =>
      have hnone : [EnvLine.other line h hline].filterMap assigned = [] := rfl
      rw [render, readEnvLine_of_assignsNothing h, ih, hnone, List.filter_nil, List.append_nil]

end EnvLine

open EnvLine

/--
For a file of mixed lines, whose keys have no NUL: every key that is assigned to gets the value of its
last assignment, and all other variables stay as they are.
-/
theorem loadDotEnv_file (lines : List EnvLine) (hnul : ∀ a ∈ lines.filterMap assigned, nul ∉ a.key)
    (final : Bool) (env : Environment) :
    (loadDotEnv (some (file lines final)) env).1 = true
      ∧ ∀ name, (loadDotEnv (some (file lines final)) env).2 name
        = match lastValue lines name with
          | some value => some value
          | none => env name := by
  refine ⟨rfl, fun name => ?_⟩
  have hfold := foldl_readEnvLine lines hnul env name
  rw [← foldl_getlines_file lines final env] at hfold
  apply hfold.trans
  cases lastValue lines name <;> rfl

def noPadding : Padding := ⟨[], by simp⟩

def blankPadding : Padding := ⟨[space], List.all_eq_true.mp rfl⟩

def crlfPadding : Padding := ⟨[space, carriageReturn], List.all_eq_true.mp rfl⟩

def hostAssignment : Assignment where
  key := text "HOST"
  value := text "a=#b"
  key_ne_nil := by decide
  trimmed_key := by decide
  trimmed_value := by decide
  head_key := by decide
  equalsSign_key := by decide
  lineFeed_key := by decide
  lineFeed_value := by decide
  nul_value := by decide

/--
The lines `# HOST=c`, `HOST=`, a blank one, `PORT = 8080`, `HOST=a=#b` and `HOST`, two of them with CR LF.
-/
def mixedLines : List EnvLine :=
  [.other (hash :: text " HOST=c") (.comment noPadding _) (by decide),
    .assignment { hostAssignment with
      value := []
      trimmed_value := by decide
      lineFeed_value := by decide
      nul_value := by decide } noPadding noPadding noPadding crlfPadding,
    .other [] (.blank noPadding) (by decide),
    .assignment
      { key := text "PORT"
        value := text "8080"
        key_ne_nil := by decide
        trimmed_key := by decide
        trimmed_value := by decide
        head_key := by decide
        equalsSign_key := by decide
        lineFeed_key := by decide
        lineFeed_value := by decide
        nul_value := by decide } noPadding blankPadding blankPadding noPadding,
    .assignment hostAssignment noPadding noPadding noPadding crlfPadding,
    .other (text "HOST") (.noEqualsSign (by decide)) (by decide)]

theorem loadDotEnv_file_host :
    (loadDotEnv (some (file mixedLines false)) (fun _ => none)).2 (text "HOST") = some (text "a=#b")
      ∧ (loadDotEnv (some (file mixedLines false)) (fun _ => none)).2 (text "PORT") = some (text "8080") :=
  ⟨(loadDotEnv_file mixedLines (by decide) false (fun _ => none)).2 (text "HOST"),
    (loadDotEnv_file mixedLines (by decide) false (fun _ => none)).2 (text "PORT")⟩

/--
A key with a NUL is cut off there, and another variable is set.
-/
theorem loadDotEnv_nulKey :
    ∃ a : Assignment, ∃ line : EnvLine, a.key = [0x41, nul, 0x42] ∧ assigned line = some a
      ∧ lastValue [line] [0x41] = none
      ∧ (loadDotEnv (some (file [line] true)) (fun _ => none)).2 [0x41] = some a.value
      ∧ (loadDotEnv (some (file [line] true)) (fun _ => none)).2 a.key = none := by
  let a : Assignment :=
    { hostAssignment with
      key := [0x41, nul, 0x42]
      key_ne_nil := by decide
      trimmed_key := by decide
      head_key := by decide
      equalsSign_key := by decide
      lineFeed_key := by decide }
  exact ⟨a, .assignment a noPadding noPadding noPadding noPadding, rfl, rfl, by decide, by decide,
    by decide⟩

end NetOrc
