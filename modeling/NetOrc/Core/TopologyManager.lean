import NetOrc.OpenFlow.Basic

/-!
This module contains the topology, a list of links keyed by descriptor and port of the switch.
-/

namespace NetOrc

open Oflib

structure Link where
  srcFd : Int32
  srcPort : Bytes
  dstChassisId : Bytes
  dstPort : Bytes
  deriving DecidableEq, Repr

structure TopologyManager where
  links : List Link := []
  deriving DecidableEq, Repr

namespace TopologyManager

def updateLinks (links : List Link) (srcFd : Int32) (srcPort dstChassis dstPort : Bytes) :
    List Link :=
  match links with
  | [] => [⟨srcFd, srcPort, dstChassis, dstPort⟩]
  | link :: rest =>
    if link.srcFd = srcFd ∧ link.srcPort = srcPort then
      { link with dstChassisId := dstChassis, dstPort := dstPort } :: rest
    else
      link :: updateLinks rest srcFd srcPort dstChassis dstPort

def updateLink (topo : TopologyManager) (srcFd : Int32) (srcPort dstChassis dstPort : Bytes) :
    TopologyManager where
  links := updateLinks topo.links srcFd srcPort dstChassis dstPort

theorem exists_mem_updateLinks_iff (links : List Link) (srcFd : Int32)
    (srcPort dstChassis dstPort : Bytes) (fd : Int32) :
    (∃ link ∈ updateLinks links srcFd srcPort dstChassis dstPort, link.srcFd = fd)
      ↔
    fd = srcFd ∨ ∃ link ∈ links, link.srcFd = fd := by
  induction links with
  | nil => simp [updateLinks, eq_comm]
  | cons link rest ih =>
    unfold updateLinks
    split
    . next hkey =>
      simp only [List.mem_cons, exists_eq_or_imp]
      rw [hkey.1]
      grind
    . simp only [List.mem_cons, exists_eq_or_imp, ih]
      grind

theorem filter_updateLinks (links : List Link) (srcFd : Int32) (srcPort dstChassis dstPort : Bytes)
    (fd : Int32) :
    (updateLinks links srcFd srcPort dstChassis dstPort).filter (fun link => link.srcFd = fd)
      =
    if fd = srcFd then
      updateLinks (links.filter (fun link => link.srcFd = fd)) srcFd srcPort dstChassis dstPort
    else
      links.filter (fun link => link.srcFd = fd) := by
  induction links with
  | nil =>
    by_cases hfd : fd = srcFd
    . simp [updateLinks, hfd]
    . simp [updateLinks, hfd, Ne.symm hfd]
  | cons link rest ih =>
    by_cases hfd : fd = srcFd
    . subst hfd
      rw [if_pos rfl] at ih ⊢
      rw [updateLinks]
      by_cases hlink : link.srcFd = fd
      . rw [List.filter_cons_of_pos (by simpa using hlink), updateLinks]
        split
        . rw [List.filter_cons_of_pos (by simpa using hlink)]
        . rw [List.filter_cons_of_pos (by simpa using hlink), ih]
      . rw [if_neg (fun hkey => hlink hkey.1), List.filter_cons_of_neg (by simpa using hlink),
          List.filter_cons_of_neg (by simpa using hlink), ih]
    . rw [if_neg hfd] at ih ⊢
      rw [updateLinks]
      split
      . next hkey =>
        have hlink : link.srcFd ≠ fd := by
          rw [hkey.1]
          exact Ne.symm hfd
        rw [List.filter_cons_of_neg (by simpa using hlink),
          List.filter_cons_of_neg (by simpa using hlink)]
      . rw [List.filter_cons, List.filter_cons, ih]

end TopologyManager

structure ITopologyManager (σ : Type) where
  updateLink : Int32 → Bytes → Bytes → Bytes → σ → σ
  printTopology : σ → σ

end NetOrc
