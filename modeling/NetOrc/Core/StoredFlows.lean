import NetOrc.Core.DatabaseService

/-!
This module shows which datapath ids survive the table `flows`: from `2 ^ 63` on an id is stored as a
double, and only the multiples of 2048 are one.
-/

namespace NetOrc

def SqlValue.read (value : SqlValue) : Int :=
  match value with
  | .integer n => n
  | .real n => n

/--
The columns that a call writes. The primary key is the only other one that is not NULL.
-/
def FlowsRow.content (row : FlowsRow) : SqlValue × SqlValue × SqlValue :=
  (row.dpid, row.inPort, row.actionPort)

def StoredExactly (dpid : UInt64) : Prop := dpid.toNat < 2 ^ 63 ∨ 2048 ∣ dpid.toNat

instance (dpid : UInt64) : Decidable (StoredExactly dpid) := inferInstanceAs (Decidable (_ ∨ _))

theorem nearestDouble_eq_iff (n : Nat) : nearestDouble n = n ↔ 2048 ∣ n := by
  unfold nearestDouble
  split
  . omega
  . omega

theorem sqlLiteral_of_lt {n : Nat} (h : n < 2 ^ 63) : sqlLiteral n = .integer n := if_pos h

theorem read_sqlLiteral_iff (dpid : UInt64) :
    (sqlLiteral dpid.toNat).read = dpid.toNat ↔ StoredExactly dpid := by
  unfold StoredExactly sqlLiteral
  split
  . next hlt => exact ⟨fun _ => .inl hlt, fun _ => rfl⟩
  . next hlt =>
    simp only [SqlValue.read, hlt, false_or]
    rw [← nearestDouble_eq_iff]
    omega

theorem read_sqlLiteral_of_exactly {dpid : UInt64} (h : StoredExactly dpid) :
    (sqlLiteral dpid.toNat).read = dpid.toNat :=
  (read_sqlLiteral_iff dpid).mpr h

namespace DatabaseService

theorem rows_saveFlow (db : DatabaseService) (call : SaveFlow) :
    (db.saveFlow false call).rows = db.rows ++ [rowOf db.nextId call] := rfl

theorem content_rowOf_inj {call call' : SaveFlow} (h : StoredExactly call.dpid)
    (h' : StoredExactly call'.dpid) {id id' : Nat}
    (hcontent : (rowOf id call).content = (rowOf id' call').content) : call = call' := by
  rcases call with ⟨dpid, inPort, actionPort⟩
  rcases call' with ⟨dpid', inPort', actionPort'⟩
  simp only [FlowsRow.content, rowOf, Prod.mk.injEq] at hcontent
  rcases hcontent with ⟨hdpid, hinPort, hactionPort⟩
  have hdpid' : dpid = dpid' := by
    have hread := congrArg SqlValue.read hdpid
    rw [read_sqlLiteral_of_exactly h, read_sqlLiteral_of_exactly h'] at hread
    exact UInt64.toNat_inj.mp (Int.ofNat.inj hread)
  have hinPort' : inPort = inPort' := by
    have hlt := inPort.toNat_lt
    have hlt' := inPort'.toNat_lt
    rw [sqlLiteral_of_lt (by omega), sqlLiteral_of_lt (by omega), SqlValue.integer.injEq] at hinPort
    exact UInt32.toNat_inj.mp (Int.ofNat.inj hinPort)
  have hactionPort' : actionPort = actionPort' := by
    rw [SqlValue.integer.injEq] at hactionPort
    exact Int32.toInt_inj.mp hactionPort
  rw [hdpid', hinPort', hactionPort']

/--
For two calls, whatever is stored before each: different arguments leave different rows, and each row
reads back as the id that was saved, exactly if both ids are below `2 ^ 63` or a multiple of 2048.
-/
theorem saveFlow_identifies_iff (db db' : DatabaseService) (call call' : SaveFlow) :
    (∃ row row' : FlowsRow, (db.saveFlow false call).rows = db.rows ++ [row]
        ∧ (db'.saveFlow false call').rows = db'.rows ++ [row']
        ∧ (call ≠ call' → row.content ≠ row'.content)
        ∧ row.dpid.read = call.dpid.toNat ∧ row'.dpid.read = call'.dpid.toNat)
      ↔
    StoredExactly call.dpid ∧ StoredExactly call'.dpid := by
  constructor
  . rintro ⟨row, row', hrow, hrow', _, hread, hread'⟩
    rw [rows_saveFlow, List.append_cancel_left_eq, List.singleton_inj] at hrow hrow'
    rw [← hrow] at hread
    rw [← hrow'] at hread'
    exact ⟨(read_sqlLiteral_iff call.dpid).mp hread, (read_sqlLiteral_iff call'.dpid).mp hread'⟩
  . rintro ⟨h, h'⟩
    refine ⟨_, _, rows_saveFlow db call, rows_saveFlow db' call', ?_, read_sqlLiteral_of_exactly h,
      read_sqlLiteral_of_exactly h'⟩
    intro hne hcontent
    exact hne (content_rowOf_inj h h' hcontent)

/--
Ids that differ by 1, as the descriptors -1 and -2 give after sign extension: the rows have one content,
which reads as `2 ^ 64`.
-/
theorem saveFlow_signExtended :
    let call : SaveFlow := ⟨0xffffffffffffffff, 1, 2⟩
    let call' : SaveFlow := ⟨0xfffffffffffffffe, 1, 2⟩
    let db := (({} : DatabaseService).saveFlow false call).saveFlow false call'
    call ≠ call' ∧ db.rows.map FlowsRow.content
        = [(.real (2 ^ 64), .integer 1, .integer 2), (.real (2 ^ 64), .integer 1, .integer 2)] := by
  decide

end DatabaseService

end NetOrc
