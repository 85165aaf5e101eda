import NetOrc.Northbound.Stoi

/-!
This module contains the configuration, which is read from the environment and the arguments of `main`,
and shows on which port the northbound interface listens.
-/

namespace NetOrc

open Oflib
open TextFormat

structure Configuration where
  debug : Bool := false
  verbose : Bool := false
  serviceName : Bytes := text "netorc"
  northboundPort : Int := 8192
  deriving DecidableEq, Repr

def Configuration.loadFromEnv (config : Configuration) (getenv : Bytes → Option Bytes) :
    Configuration :=
  let config := match getenv (text "NETORC_SERVICE_NAME") with
    | some val => { config with serviceName := val }
    | none => config
  match getenv (text "NETORC_NBI_PORT") with
  | some val => { config with northboundPort := (stoi val).getD 8192 }
  | none => config

def nbiPortPrefix : Bytes := text "--nbi-port="

def serviceNamePrefix : Bytes := text "--service-name="

def Configuration.readArg (config : Configuration) (arg : Bytes) : Configuration :=
  if arg = text "--debug" then
    { config with debug := true }
  else if arg = text "--verbose" then
    { config with verbose := true }
  else if serviceNamePrefix <+: arg then
    { config with serviceName := arg.drop serviceNamePrefix.length }
  else if nbiPortPrefix <+: arg then
    { config with northboundPort := (stoi (arg.drop nbiPortPrefix.length)).getD 8192 }
  else
    config

def configOf (getenv : Bytes → Option Bytes) (args : List Bytes) : Configuration :=
  args.foldl Configuration.readArg (({} : Configuration).loadFromEnv getenv)

def kDefaultPort : Int := 8192

/--
The port that `NorthBoundInterface::init` passes to `listen`.
-/
def listenPort (config : Configuration) : Int :=
  if config.northboundPort > 0 then config.northboundPort else kDefaultPort

/-! The specification that decides. -/

def portSpec (arg : Bytes) : Option Bytes :=
  if nbiPortPrefix <+: arg then some (arg.drop nbiPortPrefix.length) else none

/--
The last `--nbi-port` argument, or else the value of the environment.
-/
def decidingSpec (getenv : Bytes → Option Bytes) (args : List Bytes) : Option Bytes :=
  (args.filterMap portSpec).getLast?.or (getenv (text "NETORC_NBI_PORT"))

theorem readArg_northboundPort (config : Configuration) (arg : Bytes) :
    (config.readArg arg).northboundPort
      =
    match portSpec arg with
    | some spec => (stoi spec).getD 8192
    | none => config.northboundPort := by
  have hother : ∀ other : Bytes, ¬nbiPortPrefix <+: other → arg = other → ¬nbiPortPrefix <+: arg := by
    rintro other hprefix rfl
    exact hprefix
  have hservice : serviceNamePrefix <+: arg → ¬nbiPortPrefix <+: arg := by
    intro hservice hport
    have hboth := List.prefix_of_prefix_length_le hport hservice (by decide)
    revert hboth
    decide
  unfold Configuration.readArg portSpec
  split
  . next harg => rw [if_neg (hother _ (by decide) harg)]
  . split
    . next harg => rw [if_neg (hother _ (by decide) harg)]
    . split
      . next hprefix => rw [if_neg (hservice hprefix)]
      . split <;> rfl

theorem foldl_readArg_northboundPort (args : List Bytes) (config : Configuration) :
    (args.foldl Configuration.readArg config).northboundPort
      =
    match (args.filterMap portSpec).getLast? with
    | some spec => (stoi spec).getD 8192
    | none => config.northboundPort := by
  induction args using List.reverseRecOn with
  | nil => rfl
  | append_singleton args arg ih =>
    rw [List.foldl_concat, readArg_northboundPort, List.filterMap_append]
    cases hspec : portSpec arg with
    | none => simpa [hspec] using ih
    | some spec => simp [hspec]

theorem configOf_northboundPort (getenv : Bytes → Option Bytes) (args : List Bytes) :
    (configOf getenv args).northboundPort
      =
    match decidingSpec getenv args with
    | some spec => (stoi spec).getD 8192
    | none => 8192 := by
  have henv : (({} : Configuration).loadFromEnv getenv).northboundPort
      = match getenv (text "NETORC_NBI_PORT") with
        | some spec => (stoi spec).getD 8192
        | none => 8192 := by
    unfold Configuration.loadFromEnv
    cases getenv (text "NETORC_NBI_PORT") with
    | none => cases getenv (text "NETORC_SERVICE_NAME") <;> rfl
    | some val => rfl
  rw [configOf, foldl_readArg_northboundPort, henv, decidingSpec]
  cases (args.filterMap portSpec).getLast? with
  | none => rfl
  | some spec => rfl

/-! What the specification asks for. -/

def askedPort (spec : Option Bytes) : Int :=
  match spec.bind numeral with
  | none => 8192
  | some n => if 1 ≤ n ∧ n ≤ 65535 then n else 8192

theorem askedPort_range (spec : Option Bytes) : 1 ≤ askedPort spec ∧ askedPort spec ≤ 65535 := by
  unfold askedPort
  split
  . decide
  . split
    . omega
    . decide

theorem askedPort_of_stoi {spec : Bytes} (h : ∀ n : Nat, 1 ≤ n → stoi spec = some (n : Int) → n = 8192) :
    askedPort (some spec) = 8192 := by
  unfold askedPort
  rw [Option.bind_some]
  cases hnumeral : numeral spec with
  | none => rfl
  | some n =>
    dsimp only
    split
    . next hrange =>
      have hread : stoi spec = some (n : Int) :=
        (stoi_eq_natCast_iff spec hrange.1).mpr ⟨readsNumber_of_numeral hnumeral, by omega⟩
      rw [h n hrange.1 hread]
      rfl
    . rfl

theorem askedPort_of_digits {spec : Bytes} {n : Nat} (hstoi : stoi spec = some (n : Int))
    (hdigits : ∀ b ∈ spec, isDigit b) (hrange : 1 ≤ n ∧ n ≤ 65535) : askedPort (some spec) = n := by
  have hnil : spec ≠ [] := by
    rintro rfl
    contradiction
  rcases Option.isSome_iff_exists.mp ((numeral_isSome_iff spec).mpr ⟨hnil, hdigits⟩) with ⟨m, hm⟩
  have hread := stoi_of_reads (readsNumber_of_numeral hm)
  rw [hstoi] at hread
  split at hread
  . injection hread with hread
    have hmn : m = n := Int.natCast_inj.mp hread.symm
    rw [askedPort, Option.bind_some, hm, hmn]
    exact if_pos hrange
  . contradiction

def repairedPort (spec : Bytes) : Int :=
  let port := (stoi spec).getD 8192
  if port > 0 then port else kDefaultPort

theorem repairedPort_of_pos {spec : Bytes} {i : Int} (hstoi : stoi spec = some i) (hpos : 0 < i) :
    repairedPort spec = i := by
  unfold repairedPort
  rw [hstoi]
  exact if_pos hpos

theorem repairedPort_of_not_pos {spec : Bytes} (h : ∀ i, stoi spec = some i → ¬0 < i) :
    repairedPort spec = 8192 := by
  unfold repairedPort
  cases hstoi : stoi spec with
  | none => rfl
  | some i => exact if_neg (h i hstoi)

theorem repairedPort_eq_iff (spec : Bytes) :
    repairedPort spec = askedPort (some spec)
      ↔
    ∀ n : Nat, ReadsNumber spec false n → 1 ≤ n → n ≤ 0x7FFFFFFF →
      n = 8192 ∨ (n ≤ 65535 ∧ ∀ b ∈ spec, isDigit b) := by
  constructor
  . intro h n hreads hpos hint
    have hstoi := (stoi_eq_natCast_iff spec hpos).mpr ⟨hreads, hint⟩
    have hrange := askedPort_range (some spec)
    rw [repairedPort_of_pos hstoi (by omega)] at h
    cases hnumeral : numeral spec with
    | none =>
      left
      rw [askedPort, Option.bind_some, hnumeral] at h
      exact Int.ofNat.inj h
    | some m => exact .inr ⟨by omega, (numeral_eq_some hnumeral).2⟩
  . intro h
    by_cases hpos : ∃ n : Nat, 1 ≤ n ∧ stoi spec = some (n : Int)
    . rcases hpos with ⟨n, hpos, hstoi⟩
      have hreads := (stoi_eq_natCast_iff spec hpos).mp hstoi
      rw [repairedPort_of_pos hstoi (by omega)]
      rcases h n hreads.1 hpos hreads.2 with rfl | ⟨hle, hdigits⟩
      . rw [askedPort_of_stoi]
        . rfl
        . intro m _ hm
          rw [hstoi] at hm
          injection hm with hm
          exact Int.natCast_inj.mp hm.symm
      . exact (askedPort_of_digits hstoi hdigits ⟨hpos, hle⟩).symm
    . rw [repairedPort_of_not_pos, askedPort_of_stoi]
      . intro n hn hstoi
        exact absurd ⟨n, hn, hstoi⟩ hpos
      . intro i hstoi hlt
        have hi : i = (i.toNat : Int) := by omega
        rw [hi] at hstoi
        exact hpos ⟨i.toNat, by omega, hstoi⟩

/--
The port is the one asked for, and one to listen on, exactly if the deciding specification, where it
starts with a number from 1 on, for `stoi`, has nothing but digits and is at most 65535, or the number is
the default port anyway.
-/
theorem listenPort_iff (getenv : Bytes → Option Bytes) (args : List Bytes) :
    let port := listenPort (configOf getenv args)
    ((1 ≤ port ∧ port ≤ 65535) ∧ port = askedPort (decidingSpec getenv args))
      ↔
    ∀ spec, decidingSpec getenv args = some spec →
      ∀ n : Nat, ReadsNumber spec false n → 1 ≤ n → n ≤ 0x7FFFFFFF →
        n = 8192 ∨ (n ≤ 65535 ∧ ∀ b ∈ spec, isDigit b) := by
  intro port
  have hasked : ((1 ≤ port ∧ port ≤ 65535) ∧ port = askedPort (decidingSpec getenv args))
      ↔ port = askedPort (decidingSpec getenv args) := by
    constructor
    . exact fun h => h.2
    . intro h
      refine ⟨?_, h⟩
      rw [h]
      exact askedPort_range _
  rw [hasked]
  unfold port listenPort
  rw [configOf_northboundPort]
  cases decidingSpec getenv args with
  | none => simp [askedPort]
  | some spec =>
    simp only [Option.some.injEq, forall_eq']
    exact repairedPort_eq_iff spec

/--
A number that is no port, and a port with a rest behind it.
-/
theorem listenPort_unusable :
    listenPort (configOf (fun _ => none) [text "--nbi-port=70000"]) = 70000
      ∧ listenPort (configOf (fun _ => some (text "80x")) []) = 80
      ∧ askedPort (decidingSpec (fun _ => some (text "80x")) []) = 8192 := by
  decide

end NetOrc
