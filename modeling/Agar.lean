import Agar.Lib.Outcome
import Agar.Lib.Runs
import Agar.Lib.ByteArray
import Agar.Lib.OrderedInsert
import Agar.Lib.CString
import Agar.Lib.Forest
import Agar.Lib.OrderedForest
import Agar.Core.DataSource
import Agar.Core.CoreSeek
import Agar.Core.CoreSource
import Agar.Core.TransferCounts
import Agar.Core.Timeout
import Agar.Core.TimerProcessing
import Agar.Core.Event
import Agar.Core.Object
import Agar.Core.ClassPattern
import Agar.Core.TableMemory
import Agar.Core.ClassInheritance
import Agar.Core.VariableReference
import Agar.Core.VariableTags
import Agar.Web.HeaderSettings
import Agar.Web.VariableTexts
import Agar.Core.EventDelivery
import Agar.Core.EventPropagation
import Agar.Core.EventArgs
import Agar.Core.EventSchedule
import Agar.Core.ObjectTree
import Agar.Core.GeneratedName
import Agar.Core.ItemTree
import Agar.Core.ObjectCopyName
import Agar.Core.Records
import Agar.Core.VersionRecord
import Agar.Core.StringSkip
import Agar.Core.VariableListSequence
import Agar.Core.TextStrings
import Agar.Core.TextArchive
import Agar.Core.UnicodeBounds
import Agar.Core.PrintfGrowth
import Agar.Core.PolledInStep
import Agar.Core.Dependencies
import Agar.Core.ObjectHeader
import Agar.Core.ObjectNames
import Agar.Core.VariableSubst
import Agar.Core.NetAddr
import Agar.Web.Query
import Agar.Web.EscapeURL
import Agar.Web.FormDecoding
import Agar.Web.FormArguments
import Agar.Web.RangeRequests
import Agar.Web.OperationDispatch
import Agar.Web.JsonOutput
import Agar.Web.Forwarding
import Agar.Web.FragmentFilter
import Agar.Web.DocumentFilter
import Agar.Web.SessionFiles
import Agar.Gui.TlistSelection
import Agar.Gui.TlistRefresh
import Agar.Gui.TreetblCount
import Agar.Gui.TreetblSelection
import Agar.Gui.TreetblView
import Agar.Gui.Sensitivity
import Agar.Gui.WidgetActions
import Agar.Gui.StyleFonts
import Agar.Gui.StyleSheet
import Agar.Gui.StyleSheetStrings
import Agar.Gui.StyleSheetLines
import Agar.Gui.StyleSheetLoading
import Agar.Gui.TableRows
import Agar.Gui.TableMemory
import Agar.Gui.TableInsertions
import Agar.Gui.FocusCycle
import Agar.Gui.TableSort
import Agar.Gui.TableLayout
import Agar.Gui.Numerical
import Agar.Gui.ConsoleSelection
import Agar.Gui.EditableRefusal
import Agar.Gui.DeadKeys
import Agar.Gui.CursorMotions
import Agar.Gui.TextCommit
import Agar.Gui.Stepping
import Agar.Gui.SliderMapping
import Agar.Gui.BoxPacking
import Agar.Gui.HomogenousBox
import Agar.Gui.Pane
import Agar.Gui.ScrollbarThumb
import Agar.Gui.ScrollbarSteps
import Agar.Vg.Handles
import Agar.Vg.Transform
import Agar.Vg.PolygonFill
import Agar.Vg.Deletion
import Agar.Core.DecimalAppend
import Agar.Gui.SurfaceFill
import Agar.Gui.BlitConverse
import Agar.Gui.SurfaceRuns
import Agar.Gui.XcfLevels
