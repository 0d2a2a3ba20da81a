import Pseudocode.Layout
import Pseudocode.Proofs.Notice

/-!
# Pieces and notices

What the steps of a conversion write and have to say is put together piece by piece and notice by
notice.  The notices that are errors in a strict conversion are its *faults*.
-/

namespace Pseudocode

/-- What a step of a conversion writes and has to say. -/
structure Written where
  /-- The generated code. -/
  pieces : List Piece
  /-- The notices, in order. -/
  notices : List Notice
  deriving DecidableEq, Repr

namespace Written

/-- Nothing. -/
def empty : Written := ⟨[], []⟩

/-- One thing after the other. -/
def append (a b : Written) : Written := ⟨a.pieces ++ b.pieces, a.notices ++ b.notices⟩

instance : Append Written := ⟨append⟩

/-- Code without notices. -/
def code (pieces : List Piece) : Written := ⟨pieces, []⟩

end Written

@[simp] theorem render_nil : render [] = [] := rfl

@[simp] theorem render_cons (p : Piece) (ps : List Piece) :
    render (p :: ps) = p.text ++ render ps :=
  rfl

@[simp] theorem render_append (ps qs : List Piece) : render (ps ++ qs) = render ps ++ render qs :=
  List.flatMap_append

namespace Written

@[simp] theorem pieces_append (a b : Written) : (a ++ b).pieces = a.pieces ++ b.pieces := rfl

@[simp] theorem notices_append (a b : Written) : (a ++ b).notices = a.notices ++ b.notices := rfl

@[simp] theorem pieces_empty : empty.pieces = [] := rfl

@[simp] theorem notices_empty : empty.notices = [] := rfl

@[simp] theorem pieces_code (ps : List Piece) : (code ps).pieces = ps := rfl

@[simp] theorem notices_code (ps : List Piece) : (code ps).notices = [] := rfl

theorem append_assoc (a b c : Written) : a ++ b ++ c = a ++ (b ++ c) := by
  change Written.mk _ _ = Written.mk _ _
  simp only [pieces_append, notices_append, List.append_assoc]

theorem append_empty (a : Written) : a ++ empty = a := by
  change Written.mk _ _ = Written.mk _ _
  simp only [pieces_empty, notices_empty, List.append_nil]

/-- The notices that are errors in a strict conversion. -/
def faults (w : Written) : List Notice := w.notices.filter fun n => (n.report true).isError

@[simp] theorem faults_append (a b : Written) : (a ++ b).faults = a.faults ++ b.faults :=
  List.filter_append ..

@[simp] theorem faults_empty : empty.faults = [] := rfl

@[simp] theorem faults_code (ps : List Piece) : (code ps).faults = [] := rfl

end Written

end Pseudocode
