import Roadmap.Header.Document
import Roadmap.Plan.Printer
import Roadmap.Schedule.Basic
import Roadmap.Workspace.Identity
import Roadmap.Workspace.Timestamp

namespace Roadmap

open Calendar

structure Workspace where
  id : Identity
  header : Header
  content : String
  updatedAt : Timestamp
  deriving DecidableEq

structure Stamp where
  id : Identity
  time : Timestamp
  deriving DecidableEq

def Stamp.today (stamp : Stamp) : String := stamp.time.day.toString

namespace Workspace

def new (header : Header) (content : String) (stamp : Stamp) : Workspace :=
  ⟨stamp.id, header, content, stamp.time⟩

def name (w : Workspace) : String := w.header.name

def rawText (w : Workspace) : String := w.header.document w.content

def schedule (w : Workspace) (today : Day) : Schedule := .ofContent w.content today

end Workspace

structure Config where
  defaultName : String
  sharedName : String
  legacyName : String
  sampleName : String
  sampleContent : String
  deriving DecidableEq

def sampleRoadmap : String :=
  String.intercalate "\n"
    ["AI OCR:",
     "- BA, 2025-10-01, 2025-11-30: Andy 0.3, Ben 0.8, Cat 0.5",
     "- SA, --, 2026-02: Andy 0.3, Danny 0.6, Elsa 0.2",
     "- SD, --, 2026-04: Andy 0.6, Elsa 0.2, Frank 0.2",
     "- Dev, 2026-03, 2026-05: Andy 0.1, Elsa 0.6, Frank 0.6",
     "- Sit, --, 2026-06: Elsa 0.3, Frank 0.3",
     "- Uat, --, 2026-07: Elsa 0.1, Frank 0.1, Ben 0.7, Cat 0.4",
     "Staff Portal:",
     "- BA/SA, 2026-01, 2026-06: Andy 0.3, Monica 0.7, Amber 0.4",
     "- SD/Dev, 2026-03, 2026-09: Andy 0.2, Amber 0.7, Kevin 0.7",
     "- Sit/Uat, --, 2026-11: Amber 0.2, Kevin 0.2, Monica 0.5, Norman 0.5"]

def Config.standard : Config :=
  ⟨"New Project", "Shared Project", "Default Workspace", "Sample Project", sampleRoadmap⟩

end Roadmap
