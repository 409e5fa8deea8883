import InfluxUi.Utils.Env
import InfluxUi.Shared.App
import InfluxUi.DataExplorer.Fields
import InfluxUi.Editor.Lines
import InfluxUi.Editor.TextModel
import InfluxUi.Editor.Locality
import InfluxUi.InfluxQL.Composition
import InfluxUi.InfluxQL.Connection
import InfluxUi.InfluxQL.Updates
import InfluxUi.InfluxQL.SyncEnd
import InfluxUi.InfluxQL.Condition
import InfluxUi.InfluxQL.SharedBuffer
import InfluxUi.InfluxQL.Placeholder
