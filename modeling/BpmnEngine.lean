import BpmnEngine.HandlerChoice
import BpmnEngine.SavingInstances
import BpmnEngine.Migration
import BpmnEngine.Bystanders
import BpmnEngine.Nesting
import BpmnEngine.IndexedScans
import BpmnEngine.TopicIndexRaces
import BpmnEngine.RestartTransparency
import BpmnEngine.OtherActivations
import BpmnEngine.GatewayRaces
import BpmnEngine.Correlations
import BpmnEngine.VariableUpdates
import BpmnEngine.CompensationOrder
import BpmnEngine.StartPaths
import BpmnEngine.RestoredDefinitions
import BpmnEngine.DefaultFlows
import BpmnEngine.ConditionalEvents
import BpmnEngine.Durations
import BpmnEngine.LogBuffer
import BpmnEngine.AuditLog
import BpmnEngine.JoinSearch
