import HeapAudit.Analysis
import HeapAudit.Report.Records

namespace HeapAudit

def Statistics.document (s : Statistics) : Document :=
  .object [("total_allocations", .int s.allocations), ("total_frees", .int s.frees),
    ("memory_leaks", .int s.leaks), ("leaked_bytes", .int s.leakedBytes),
    ("warnings", .int s.warnings)]

namespace Analysis

/-- The fields that hold everything found. -/
def findings (a : Analysis) : List (String × Document) :=
  [("allocations", .list (a.allocations.map Allocation.document)),
    ("frees", .list (a.frees.map Free.document)),
    ("leaks", .list (a.leaks.map Leak.document)),
    ("warnings", .list (a.warnings.map Warning.document)),
    ("timeline", .list (a.timeline.map Sample.document))]

def document (a : Analysis) : Document :=
  .object ([("filename", .text a.filename), ("language", .text a.language),
    ("extractor", .text a.extractor)] ++ a.findings ++ [("summary", a.statistics.document)])

def exportDocument (a : Analysis) (time : String) : Document :=
  .object ([("timestamp", .text time), ("language", .text a.language),
    ("statistics", a.statistics.document)] ++ a.findings)

end Analysis

namespace Report

def total (count : Analysis → Int) (results : List Analysis) : Int :=
  results.foldr (count · + ·) 0

def totals (results : List Analysis) : Document :=
  .object [("files_analyzed", .int results.length),
    ("total_leaks", .int (total (·.leaks.length) results)),
    ("leaked_bytes", .int (total Analysis.leakedBytes results)),
    ("total_warnings", .int (total (·.warnings.length) results))]

/-- A single result is not wrapped. -/
def combined : List Analysis → Document
  | [a] => a.document
  | results =>
    .object [("files", .list (results.map Analysis.document)), ("summary", totals results)]

def combinedExport (time : String) : List Analysis → Document
  | [a] => a.exportDocument time
  | results => .list (results.map (·.exportDocument time))

end Report

end HeapAudit
