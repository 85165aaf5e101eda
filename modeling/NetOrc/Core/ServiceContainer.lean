import NetOrc.Data.TextFormat
import NetOrc.Data.Upsert
import NetOrc.OpenFlow.Basic

/-!
This module contains the registry through which `main` hands its objects to `App::run`, and what
`App::run` finds in it. It is why the model of the program can start behind these lookups: they succeed,
and find the objects of `main`, in whichever order it registers them.
-/

namespace NetOrc

open Oflib
open TextFormat
open Upsert

inductive ServiceType where
  | configuration
  | northBoundInterface
  | southBoundInterface
  | threadEnvironment
  | flowManager
  | databaseService
  | topologyManager
  deriving DecidableEq, Repr

structure ServiceKey where
  type : ServiceType
  name : Bytes := []
  deriving DecidableEq, Repr

structure ServiceRow where
  key : ServiceKey
  service : Nat

/-! `layout` tells which object lives at an address. -/

variable {layout : Nat → Option ServiceType}

abbrev Pointer (layout : Nat → Option ServiceType) (type : ServiceType) : Type :=
  { address : Nat // layout address = some type }

/--
What is stored under a type points to an object of this type, so that the cast of `getService` is safe.
-/
structure ServiceContainer (layout : Nat → Option ServiceType) where
  services : List ServiceRow := []
  nodup : (services.map ServiceRow.key).Nodup := by simp
  typed : ∀ row ∈ services, layout row.service = some row.key.type := by simp

structure AddService (layout : Nat → Option ServiceType) where
  key : ServiceKey
  service : Pointer layout key.type

def AddService.row (call : AddService layout) : ServiceRow where
  key := call.key
  service := call.service.val

namespace ServiceContainer

def addService (c : ServiceContainer layout) (call : AddService layout) : ServiceContainer layout where
  services := upsert ServiceRow.key c.services call.row
  nodup := nodup_upsert c.nodup call.row
  typed := by
    intro row hrow
    rcases mem_upsert c.nodup hrow with rfl | ⟨hrow, _⟩
    . exact call.service.property
    . exact c.typed row hrow

/-- The text of the exception. `typeName` is `typeid(T).name()`, which the compiler chooses. -/
def notFound (typeName : ServiceType → Bytes) (key : ServiceKey) : Bytes :=
  text "Service not found: " ++ typeName key.type
    ++ (if key.name.isEmpty then [] else text " (" ++ key.name ++ text ")")

def getService (c : ServiceContainer layout) (typeName : ServiceType → Bytes) (key : ServiceKey) :
    Except Bytes (Pointer layout key.type) :=
  match hfind : c.services.find? (fun row => row.key = key) with
  | none => .error (notFound typeName key)
  | some row =>
    have hkey : row.key = key := by simpa using List.find?_some hfind
    .ok ⟨row.service, hkey ▸ c.typed row (List.mem_of_find?_eq_some hfind)⟩

def ofCalls (calls : List (AddService layout)) : ServiceContainer layout := calls.foldl addService {}

end ServiceContainer

/-! The services that `App::run` asks for, in its order. -/

def configKey : ServiceKey := { type := .configuration }
def sbiKey : ServiceKey := { type := .southBoundInterface }
def nbiKey : ServiceKey := { type := .northBoundInterface }
def sbiThreadsKey : ServiceKey := { type := .threadEnvironment, name := text "SBI" }
def nbiThreadsKey : ServiceKey := { type := .threadEnvironment, name := text "NBI" }
def flowManagerKey : ServiceKey := { type := .flowManager }
def databaseKey : ServiceKey := { type := .databaseService }
def topologyKey : ServiceKey := { type := .topologyManager }

def appKeys : List ServiceKey :=
  [sbiKey, nbiKey, sbiThreadsKey, nbiThreadsKey, flowManagerKey, databaseKey, topologyKey]

structure AppServices (layout : Nat → Option ServiceType) where
  sbi : Pointer layout sbiKey.type
  nbi : Pointer layout nbiKey.type
  sbiThreads : Pointer layout sbiThreadsKey.type
  nbiThreads : Pointer layout nbiThreadsKey.type
  flowManager : Pointer layout flowManagerKey.type
  dbService : Pointer layout databaseKey.type
  topoManager : Pointer layout topologyKey.type

namespace AppServices

def addresses (s : AppServices layout) : List Nat :=
  [s.sbi, s.nbi, s.sbiThreads, s.nbiThreads, s.flowManager, s.dbService, s.topoManager]

def calls (config : Pointer layout configKey.type) (s : AppServices layout) : List (AddService layout) :=
  [⟨configKey, config⟩, ⟨nbiKey, s.nbi⟩, ⟨sbiKey, s.sbi⟩, ⟨sbiThreadsKey, s.sbiThreads⟩,
    ⟨nbiThreadsKey, s.nbiThreads⟩, ⟨flowManagerKey, s.flowManager⟩, ⟨databaseKey, s.dbService⟩,
    ⟨topologyKey, s.topoManager⟩]

theorem addresses_injective {s s' : AppServices layout} (h : s.addresses = s'.addresses) : s = s' := by
  cases s
  cases s'
  simp only [addresses, List.cons.injEq, Subtype.val_inj] at h
  simp [h]

end AppServices

/--
How the lookups of `App::run` end. The configuration is read before the `try` block: its exception leaves
`main`. The other one is logged as a fatal error, and `App::run` returns.
-/
inductive Startup (layout : Nat → Option ServiceType) where
  | found (config : Pointer layout configKey.type) (services : AppServices layout)
  | fatal (what : Bytes)
  | uncaught (what : Bytes)

namespace ServiceContainer

def appServices (c : ServiceContainer layout) (typeName : ServiceType → Bytes) :
    Except Bytes (AppServices layout) := do
  let sbi ← c.getService typeName sbiKey
  let nbi ← c.getService typeName nbiKey
  let sbiThreads ← c.getService typeName sbiThreadsKey
  let nbiThreads ← c.getService typeName nbiThreadsKey
  let flowManager ← c.getService typeName flowManagerKey
  let dbService ← c.getService typeName databaseKey
  let topoManager ← c.getService typeName topologyKey
  return { sbi, nbi, sbiThreads, nbiThreads, flowManager, dbService, topoManager }

def startup (c : ServiceContainer layout) (typeName : ServiceType → Bytes) : Startup layout :=
  match c.getService typeName configKey with
  | .error what => .uncaught what
  | .ok config =>
    match c.appServices typeName with
    | .error what => .fatal what
    | .ok services => .found config services

end ServiceContainer

/-! What was registered last under a key. -/

def lastCall (calls : List (AddService layout)) (key : ServiceKey) : Option Nat :=
  ((calls.filter (fun call => call.key = key)).getLast?).map (fun call => call.service.val)

theorem lastCall_of_perm {calls calls' : List (AddService layout)} (h : calls.Perm calls')
    (hnodup : (calls'.map AddService.key).Nodup) (key : ServiceKey) :
    lastCall calls key = lastCall calls' key := by
  have hperm := h.filter (fun call => decide (call.key = key))
  have hlength : (calls'.filter (fun call => decide (call.key = key))).length ≤ 1 := by
    have hcount := List.nodup_iff_count.mp hnodup key
    rw [List.count_eq_countP, List.countP_map, List.countP_eq_length_filter] at hcount
    exact hcount
  rw [lastCall, lastCall]
  match hfilter : calls'.filter (fun call => decide (call.key = key)) with
  | [] =>
    rw [hfilter] at hperm
    rw [hfilter, hperm.eq_nil]
  | [call] =>
    rw [hfilter] at hperm
    rw [hfilter, List.perm_singleton.mp hperm]
  | call :: call' :: rest => simp [hfilter] at hlength

namespace ServiceContainer

variable (typeName : ServiceType → Bytes)

theorem services_ofCalls (calls : List (AddService layout)) :
    (ofCalls calls).services = upserts ServiceRow.key (calls.map AddService.row) := by
  induction calls using List.reverseRecOn with
  | nil => rfl
  | append_singleton calls call ih =>
    have hadd : ofCalls (calls ++ [call]) = (ofCalls calls).addService call := by simp [ofCalls]
    rw [hadd, List.map_append, List.map_singleton, upserts_concat, ← ih]
    rfl

theorem find_ofCalls (calls : List (AddService layout)) (key : ServiceKey) :
    ((ofCalls calls).services.find? (fun row => row.key = key)).map ServiceRow.service
      =
    lastCall calls key := by
  have hrow : (fun row : ServiceRow => decide (row.key = key)) ∘ AddService.row
      = fun call : AddService layout => decide (call.key = key) := rfl
  rw [← List.head?_filter, services_ofCalls, filter_key_upserts, List.filter_map, hrow, List.getLast?_map,
    Option.head?_toList, Option.map_map]
  rfl

theorem getService_ofCalls (calls : List (AddService layout)) (key : ServiceKey) :
    ((ofCalls calls).getService typeName key).map Subtype.val
      =
    match lastCall calls key with
    | none => .error (notFound typeName key)
    | some address => .ok address := by
  rw [← find_ofCalls, getService]
  split
  . next hfind =>
    rw [hfind]
    rfl
  . next row hfind =>
    simp only [hfind]
    rfl

def lookups (c : ServiceContainer layout) (keys : List ServiceKey) : Except Bytes (List Nat) :=
  keys.mapM (fun key => (c.getService typeName key).map Subtype.val)

theorem lookups_ofCalls (calls : List (AddService layout)) (keys : List ServiceKey) :
    (ofCalls calls).lookups typeName keys
      =
    match keys.find? (fun key => (lastCall calls key).isNone) with
    | some key => .error (notFound typeName key)
    | none => .ok (keys.filterMap (lastCall calls)) := by
  induction keys with
  | nil => rfl
  | cons key keys ih =>
    have hcons : (ofCalls calls).lookups typeName (key :: keys)
        = (((ofCalls calls).getService typeName key).map Subtype.val).bind (fun address =>
            ((ofCalls calls).lookups typeName keys).map (fun rest => address :: rest)) := by
      rw [lookups, List.mapM_cons]
      rfl
    rw [hcons, getService_ofCalls, ih]
    cases hlast : lastCall calls key with
    | none => simp [hlast, Except.bind]
    | some address =>
      simp only [Except.bind, List.find?_cons, hlast, Option.isNone_some, List.filterMap_cons]
      cases keys.find? (fun key => (lastCall calls key).isNone) with
      | none => rfl
      | some key => rfl

theorem appServices_eq (c : ServiceContainer layout) :
    (c.appServices typeName).map AppServices.addresses = c.lookups typeName appKeys := by
  simp only [appServices, appKeys, lookups, List.mapM_cons, List.mapM_nil]
  rcases c.getService typeName sbiKey with _ | sbi
  . rfl
  rcases c.getService typeName nbiKey with _ | nbi
  . rfl
  rcases c.getService typeName sbiThreadsKey with _ | sbiThreads
  . rfl
  rcases c.getService typeName nbiThreadsKey with _ | nbiThreads
  . rfl
  rcases c.getService typeName flowManagerKey with _ | flowManager
  . rfl
  rcases c.getService typeName databaseKey with _ | dbService
  . rfl
  rcases c.getService typeName topologyKey with _ | topoManager
  . rfl
  . rfl

/--
Whatever was registered and in whichever order, `App::run` gets the last object of each of its keys, or
fails for the first of them that is missing.
-/
theorem startup_ofCalls (calls : List (AddService layout)) :
    match (ofCalls calls).startup typeName with
    | .found config s =>
      lastCall calls configKey = some config.val ∧ (∀ key ∈ appKeys, (lastCall calls key).isSome)
        ∧ s.addresses = appKeys.filterMap (lastCall calls)
    | .fatal what =>
      (lastCall calls configKey).isSome
        ∧ ∃ key, appKeys.find? (fun key => (lastCall calls key).isNone) = some key
          ∧ what = notFound typeName key
    | .uncaught what => lastCall calls configKey = none ∧ what = notFound typeName configKey := by
  have hconfig := getService_ofCalls typeName calls configKey
  have happ := (appServices_eq typeName (ofCalls calls)).trans (lookups_ofCalls typeName calls appKeys)
  cases hget : (ofCalls calls).getService typeName configKey with
  | error what =>
    rw [hget] at hconfig
    simp only [startup, hget]
    cases hlast : lastCall calls configKey with
    | none =>
      rw [hlast] at hconfig
      exact ⟨rfl, Except.error.inj hconfig⟩
    | some address => simp [hlast, Except.map] at hconfig
  | ok config =>
    rw [hget] at hconfig
    have hlast : lastCall calls configKey = some config.val := by
      cases hlast : lastCall calls configKey with
      | none => simp [hlast, Except.map] at hconfig
      | some address => simpa [hlast, Except.map] using hconfig.symm
    cases hservices : (ofCalls calls).appServices typeName with
    | error what =>
      simp only [startup, hget, hservices]
      rw [hservices] at happ
      refine ⟨by simp [hlast], ?_⟩
      cases hfirst : appKeys.find? (fun key => (lastCall calls key).isNone) with
      | none => simp [hfirst, Except.map] at happ
      | some key =>
        rw [hfirst] at happ
        exact ⟨key, rfl, Except.error.inj happ⟩
    | ok s =>
      simp only [startup, hget, hservices]
      rw [hservices] at happ
      cases hfirst : appKeys.find? (fun key => (lastCall calls key).isNone) with
      | none =>
        rw [hfirst] at happ
        refine ⟨hlast, ?_, Except.ok.inj happ⟩
        intro key hkey
        simpa [Option.isSome_iff_ne_none] using List.find?_eq_none.mp hfirst key hkey
      | some key => simp [hfirst, Except.map] at happ

/--
The calls of `main` may be made in any order.
-/
theorem startup_of_perm (config : Pointer layout configKey.type) (s : AppServices layout)
    {calls : List (AddService layout)} (h : calls.Perm (s.calls config)) :
    (ofCalls calls).startup typeName = .found config s := by
  have hnodup : ((s.calls config).map AddService.key).Nodup := by
    change [configKey, nbiKey, sbiKey, sbiThreadsKey, nbiThreadsKey, flowManagerKey, databaseKey,
      topologyKey].Nodup
    decide
  have hlast : lastCall calls = lastCall (s.calls config) := funext (lastCall_of_perm h hnodup)
  have hconfig : lastCall (s.calls config) configKey = some config.val := rfl
  have happ : appKeys.filterMap (lastCall (s.calls config)) = s.addresses := rfl
  have hfirst : appKeys.find? (fun key => (lastCall (s.calls config) key).isNone) = none := rfl
  have hstartup := startup_ofCalls typeName calls
  rw [hlast] at hstartup
  cases hget : (ofCalls calls).startup typeName with
  | found config' s' =>
    rw [hget] at hstartup
    obtain ⟨hconfig', _, happ'⟩ := hstartup
    rw [Subtype.ext (Option.some.inj (hconfig'.symm.trans hconfig)),
      AppServices.addresses_injective (happ'.trans happ)]
  | fatal what =>
    rw [hget] at hstartup
    obtain ⟨_, key, hkey, _⟩ := hstartup
    rw [hfirst] at hkey
    contradiction
  | uncaught what =>
    rw [hget] at hstartup
    rw [hconfig] at hstartup
    exact absurd hstartup.1 (by simp)

end ServiceContainer

end NetOrc
