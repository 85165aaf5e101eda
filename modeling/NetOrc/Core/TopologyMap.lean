import NetOrc.Core.TopologyManager
import NetOrc.Data.Upsert

/-!
This module shows that the topology is a finite map from descriptor and port of the switch to the remote
end: every call of `updateLink` is an upsert.
-/

namespace NetOrc

open Oflib
open Upsert

def Link.key (link : Link) : Int32 × Bytes := (link.srcFd, link.srcPort)

namespace TopologyManager

def update (topo : TopologyManager) (link : Link) : TopologyManager :=
  topo.updateLink link.srcFd link.srcPort link.dstChassisId link.dstPort

theorem updateLinks_eq_upsert (links : List Link) (link : Link) :
    updateLinks links link.srcFd link.srcPort link.dstChassisId link.dstPort
      =
    upsert Link.key links link := by
  induction links with
  | nil => rfl
  | cons link' links ih =>
    rw [updateLinks, upsert, ih]
    by_cases hkey : link'.srcFd = link.srcFd ∧ link'.srcPort = link.srcPort
    . rw [if_pos hkey, if_pos (Prod.ext hkey.1 hkey.2), hkey.1, hkey.2]
    . rw [if_neg hkey, if_neg (fun h => hkey ⟨congrArg Prod.fst h, congrArg Prod.snd h⟩)]

theorem links_foldl_update (calls : List Link) :
    (calls.foldl update {}).links = upserts Link.key calls := by
  induction calls using List.reverseRecOn with
  | nil => rfl
  | append_singleton calls call ih =>
    rw [List.foldl_concat, upserts_concat, ← ih]
    exact updateLinks_eq_upsert _ call

/--
After any sequence of calls the links have distinct keys, one for each key that was updated, in the order
of first updates; each link is the last call with its key, and a further call leaves the links of all
other keys as they are.
-/
theorem links_of_calls (calls : List Link) :
    let topo := calls.foldl update {}
    (topo.links.map Link.key).Nodup
      ∧ topo.links.map Link.key = (calls.map Link.key).eraseDups
      ∧ (∀ link ∈ topo.links, (calls.filter (fun call => call.key = link.key)).getLast? = some link)
      ∧ ∀ call : Link, (topo.update call).links.filter (fun link => link.key ≠ call.key)
          = topo.links.filter (fun link => link.key ≠ call.key) := by
  intro topo
  have hlinks : topo.links = upserts Link.key calls := links_foldl_update calls
  refine ⟨?_, ?_, ?_, ?_⟩
  . rw [hlinks]
    apply nodup_upserts
  . rw [hlinks]
    apply map_key_upserts
  . intro link hlink
    rw [hlinks] at hlink
    exact getLast?_of_mem_upserts calls hlink
  . intro call
    have hcall : (topo.update call).links = upsert Link.key topo.links call :=
      updateLinks_eq_upsert _ call
    rw [hcall]
    exact filter_upsert topo.links call

end TopologyManager

end NetOrc
