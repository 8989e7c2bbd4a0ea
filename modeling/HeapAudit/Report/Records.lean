import HeapAudit.Document
import HeapAudit.Finding
import HeapAudit.Ledger

namespace HeapAudit

def Allocation.document (a : Allocation) : Document :=
  .object [("alloc_id", .text a.id), ("variable", .text a.var), ("line", .ofLine a.line),
    ("primitive", .text a.primitive), ("size_bytes", .int a.size), ("in_loop", .bool a.inLoop),
    ("function", .ofOption a.function), ("is_array", .bool a.isArray),
    ("line_text", .text a.lineText)]

def Free.document (f : Free) : Document :=
  .object [("variable", .text f.var), ("line", .ofLine f.line), ("primitive", .text f.primitive),
    ("freed_alloc_id", .text f.freed), ("line_text", .text f.lineText)]

def Leak.document (l : Leak) : Document :=
  .object [("variable", .text l.var), ("line", .ofLine l.line), ("primitive", .text l.primitive),
    ("size_bytes", .int l.size), ("in_loop", .bool l.inLoop), ("function", .ofOption l.function),
    ("kind", .text l.kind.name), ("fix", .text l.fix), ("alloc_id", .text l.id)]

def Warning.document (w : Warning) : Document :=
  .object [("type", .text w.kind.name), ("line", .ofLine w.line), ("message", .text w.message),
    ("line_text", .text w.lineText), ("variable", .ofOption w.var)]

def Sample.document (s : Sample) : Document :=
  .object [("line", .int s.line), ("memory", .int s.memory)]

end HeapAudit
